import TypedContent.Proofs.TypeScript.Comments

/-!
# Where a comment ends

A text stays open if the sequence that closes a comment neither stands in it nor begins with its last
character. Such texts can be put one behind the other. The parts of a comment stay open, whatever is
written in it, so the sequence that ends the comment is the only one of its kind.
-/

namespace TypedContent

namespace TypeScript

def closer : List Char := ['*', '/']

theorem closer_infix_cons {c : Char} {text : List Char} :
    closer <:+: c :: text ↔ c = '*' ∧ text.head? = some '/' ∨ closer <:+: text := by
  rw [List.infix_cons_iff]
  refine or_congr_left ?_
  cases text with
  | nil => simp [closer]
  | cons d text => simp [closer, eq_comm]

theorem closer_infix_append {a b : List Char} :
    closer <:+: a ++ b ↔ closer <:+: a ∨ (a.getLast? = some '*' ∧ b.head? = some '/') ∨ closer <:+: b := by
  induction a with
  | nil => simp [closer]
  | cons c a ih =>
    rw [List.cons_append, closer_infix_cons, closer_infix_cons, ih]
    cases a with
    | nil => simp [closer]
    | cons d a => simp [or_assoc]

/-- Nothing in the text closes a comment, not even together with what comes after it. -/
structure StaysOpen (text : List Char) : Prop where
  unclosed : ¬closer <:+: text
  last : text.getLast? ≠ some '*'

theorem StaysOpen.append {a b : List Char} (ha : StaysOpen a) (hb : StaysOpen b) : StaysOpen (a ++ b) := by
  refine ⟨?_, ?_⟩
  · rw [closer_infix_append]
    rintro (h | h | h)
    · exact ha.unclosed h
    · exact ha.last h.1
    · exact hb.unclosed h
  · cases hlast : b.getLast? with
    | none => simpa [hlast] using ha.last
    | some c =>
      rw [List.getLast?_append, hlast, ← hlast]
      simpa [hlast] using hb.last

theorem staysOpen_join {lines : List String} (h : ∀ line ∈ lines, StaysOpen line.toList) :
    StaysOpen (String.join lines).toList := by
  induction lines with
  | nil => exact ⟨by simp [closer], by simp⟩
  | cons line lines ih =>
    rw [List.forall_mem_cons] at h
    rw [String.join_cons, String.toList_append]
    exact h.1.append (ih h.2)

theorem staysOpen_spaces (n : Nat) : StaysOpen (List.replicate n ' ') := by
  have hspace : ∀ c ∈ List.replicate n ' ', c ≠ '*' := fun c hc => by
    rw [List.eq_of_mem_replicate hc]
    decide
  refine ⟨fun h => ?_, fun h => ?_⟩
  · exact hspace '*' (h.subset (by simp [closer])) rfl
  · exact hspace '*' (List.mem_of_getLast? h) rfl

/-! ## Disarmed texts -/

theorem head?_disarm (text : List Char) : (disarm text).head? = text.head? := by
  fun_cases disarm text <;> rfl

theorem unclosed_disarm (text : List Char) : ¬closer <:+: disarm text := by
  fun_induction disarm text with
  | case1 rest ih => simpa [closer_infix_cons] using ih
  | case2 c rest hc ih =>
    rw [closer_infix_cons, head?_disarm]
    rintro (⟨rfl, hslash⟩ | h)
    · -- a star before a slash would have been disarmed
      obtain ⟨tail, rfl⟩ := List.head?_eq_some_iff.mp hslash
      exact hc tail rfl rfl
    · exact ih h
  | case3 => simp [closer]

/-- A disarmed text stays open once something stands behind it that is neither star nor slash. -/
theorem staysOpen_disarm {c : Char} (hstar : c ≠ '*') (hslash : c ≠ '/') (text : List Char) :
    StaysOpen (disarm text ++ [c]) := by
  refine ⟨?_, by simpa using hstar⟩
  rw [closer_infix_append]
  rintro (h | h | h)
  · exact unclosed_disarm text h
  · exact hslash (by simpa using h.2)
  · rw [closer_infix_cons] at h
    simp [closer] at h

/-! ## The end -/

/-- Where the sequence is put behind a text that stays open, it is the only one. -/
theorem closer_at_end {text before after : List Char} (h : StaysOpen text) :
    text ++ (closer ++ ['\n']) = before ++ (closer ++ after) ↔ before = text ∧ after = ['\n'] := by
  constructor
  · intro e
    rcases List.append_eq_append_iff.mp e with ⟨rest, hbefore, hend⟩ | ⟨rest, htext, hend⟩
    · cases rest with
      | nil => exact ⟨by simpa using hbefore, by simpa using hend.symm⟩
      | cons c rest =>
        -- what is left of the end has no room for the sequence
        have hrest : ['/', '\n'] = rest ++ (closer ++ after) := (List.cons.inj hend).2
        have hinfix : closer <:+: ['/', '\n'] := ⟨rest, after, by rw [hrest, List.append_assoc]⟩
        exact absurd hinfix (by decide)
    · cases rest with
      | nil => exact ⟨by simpa using htext.symm, by simpa using hend⟩
      | cons c rest =>
        obtain ⟨rfl, hrest⟩ := List.cons.inj hend
        cases rest with
        | nil => exact absurd (by simp [htext]) h.last
        | cons d rest =>
          obtain ⟨rfl, -⟩ := List.cons.inj hrest
          exact absurd ⟨before, rest, by simp [htext, closer]⟩ h.unclosed
  · rintro ⟨rfl, rfl⟩
    rfl

def spaces (n : Nat) : String := String.ofList (List.replicate n ' ')

theorem staysOpen_line (n : Nat) (text : List Char) :
    StaysOpen (spaces n ++ " * " ++ String.ofList (disarm text) ++ "\n").toList := by
  have hstar : StaysOpen " * ".toList := ⟨by decide, by decide⟩
  simp only [String.toList_append, String.toList_ofList, List.append_assoc, spaces]
  exact (staysOpen_spaces n).append (hstar.append (staysOpen_disarm (by decide) (by decide) text))

/-- A comment without its end. -/
theorem docComment_eq (n : Nat) (texts : List String) : ∃ body,
    docComment (spaces n) texts = spaces n ++ "/**" ++ body ++ "*/\n" ∧
      StaysOpen (spaces n ++ "/**" ++ body).toList := by
  unfold docComment
  split
  · next e =>
    obtain ⟨text, -, rfl⟩ := List.map_eq_singleton_iff.mp e
    refine ⟨" " ++ String.ofList (disarm text) ++ " ", ?_, ?_⟩
    · rw [show "/** " = "/**" ++ " " from rfl, show " */\n" = " " ++ "*/\n" from rfl]
      simp only [String.append_assoc]
    · have hopen : StaysOpen "/** ".toList := ⟨by decide, by decide⟩
      simp only [String.toList_append, String.toList_ofList, List.append_assoc, spaces]
      exact (staysOpen_spaces n).append (hopen.append (staysOpen_disarm (by decide) (by decide) text))
  · rw [List.map_map]
    have hlines : StaysOpen (String.join ((texts.flatMap fun t => textLines t.toList).map
        ((fun l => spaces n ++ " * " ++ l ++ "\n") ∘ fun l => String.ofList (disarm l)))).toList := by
      refine staysOpen_join fun line hline => ?_
      obtain ⟨text, -, rfl⟩ := List.mem_map.mp hline
      exact staysOpen_line n text
    generalize String.join _ = lines at hlines ⊢
    refine ⟨"\n" ++ lines ++ spaces n ++ " ", ?_, ?_⟩
    · rw [show "/**\n" = "/**" ++ "\n" from rfl, show " */\n" = " " ++ "*/\n" from rfl]
      simp only [String.append_assoc]
    · have hopen : StaysOpen "/**\n".toList := ⟨by decide, by decide⟩
      have hspace : StaysOpen " ".toList := ⟨by decide, by decide⟩
      simp only [String.toList_append, String.toList_ofList, List.append_assoc, spaces]
      exact (staysOpen_spaces n).append (hopen.append (hlines.append ((staysOpen_spaces n).append hspace)))

/-- Whatever the texts, their comment is opened after the indentation and closed once, at its end. -/
theorem comment_closed_once (n : Nat) (texts : List String) : ∃ body : String,
    docComment (spaces n) texts = spaces n ++ "/**" ++ body ++ "*/\n" ∧
      ∀ before after : String, docComment (spaces n) texts = before ++ "*/" ++ after ↔
        before = spaces n ++ "/**" ++ body ∧ after = "\n" := by
  obtain ⟨body, hbody, hopen⟩ := docComment_eq n texts
  refine ⟨body, hbody, fun before after => ?_⟩
  have hbefore : before = spaces n ++ "/**" ++ body ↔ before.toList = (spaces n ++ "/**" ++ body).toList :=
    String.toList_inj.symm
  have hafter : after = "\n" ↔ after.toList = ['\n'] := String.toList_inj.symm
  rw [hbody, hbefore, hafter, ← closer_at_end hopen, ← String.toList_inj]
  simp [closer]

end TypeScript

end TypedContent

import TypedContent.Proofs.TypeScript.Literal

/-!
# Texts quoted without escapes

A text stands for itself between quotes if no character of it is a quote, a backslash or an end of
line. With any of these what is read is not the text: either there is no literal at all, or it has
fewer units than the text, as it is closed early or has an escape in it.
-/

namespace TypedContent

namespace TypeScript

def isQuotable (c : Char) : Bool := c ∉ ['\'', '\\', '\n', '\r']

/-- The text may be put between quotes as it is. -/
def Quotable (text : String) : Prop := text.toList.all isQuotable = true

instance (text : String) : Decidable (Quotable text) := inferInstanceAs (Decidable (_ = true))

theorem quotable_append {a b : String} : Quotable (a ++ b) ↔ Quotable a ∧ Quotable b := by
  simp [Quotable]

theorem isQuotable_iff {c : Char} : isQuotable c = true ↔ c ≠ '\'' ∧ c ≠ '\\' ∧ c ≠ '\n' ∧ c ≠ '\r' := by
  simp [isQuotable]

theorem escape_of_quotable {text : List Char} (h : text.all isQuotable = true) : text.flatMap escape = text := by
  induction text with
  | nil => rfl
  | cons c text ih =>
    rw [List.all_cons, Bool.and_eq_true, isQuotable_iff] at h
    obtain ⟨⟨hq, hb, hn, -⟩, htext⟩ := h
    rw [List.flatMap_cons, ih htext, escape, if_neg hb, if_neg hq, if_neg hn, List.singleton_append]

theorem stringLiteral_of_quotable {text : String} (h : Quotable text) : stringLiteral text = "'" ++ text ++ "'" := by
  rw [← String.toList_inj, stringLiteral, escape_of_quotable h]
  simp

theorem carriage_of_quotable {text : List Char} (h : text.all isQuotable = true) : '\r' ∉ text :=
  fun hc => absurd (List.all_eq_true.mp h _ hc) (by decide)

theorem feed_quotable {text : List Char} (h : text.all isQuotable = true) :
    feed Within.step .plain text = some (text.flatMap charUnits, .plain) := by
  have hread := feed_escaped (carriage_of_quotable h)
  rwa [escape_of_quotable h] at hread

/-! ## How many units a literal can have -/

/-- What a reader may still give beyond what is left to read: a code in braces may be two units,
and its closing brace is one. -/
def Within.credit : Within → Nat
  | .braced _ => 1
  | _ => 0

theorem length_pointUnits_le (n : Nat) : (pointUnits n).length ≤ 2 := by
  unfold pointUnits
  split <;> simp

theorem one_le_charUnits (c : Char) : 1 ≤ (charUnits c).length := List.length_pos_iff.mpr (charUnits_ne_nil c)

theorem length_escaped (c : Char) : (charUnits (Within.escaped c)).length ≤ (charUnits c).length := by
  have hunits := one_le_charUnits c
  unfold Within.escaped
  split <;> first | exact hunits | exact Nat.le_refl _

theorem plainStep_credit {c : Char} {given : List Nat} {next : Within} (h : Within.plainStep c = some (given, next)) :
    given.length + next.credit ≤ (charUnits c).length := by
  unfold Within.plainStep at h
  split_ifs at h <;> cases h <;> simp [Within.credit]

theorem codeStep_credit {more value : Nat} {c : Char} {given : List Nat} {next : Within}
    (h : Within.codeStep more value c = some (given, next)) : given.length + next.credit ≤ (charUnits c).length := by
  unfold Within.codeStep at h
  obtain ⟨digit, -, h⟩ := Option.map_eq_some_iff.mp h
  cases more with
  | zero =>
    cases h
    exact one_le_charUnits c
  | succ more =>
    cases h
    exact Nat.zero_le _

/-- No step gives more units than the character has, but for what has been saved before. -/
theorem step_credit {s next : Within} {c : Char} {given : List Nat} (h : s.step c = some (given, next)) :
    given.length + next.credit ≤ (charUnits c).length + s.credit := by
  have hunits := one_le_charUnits c
  cases s with
  | plain => exact plainStep_credit h
  | escape =>
    have hescaped := length_escaped c
    simp only [Within.step] at h
    split_ifs at h <;> cases h <;> simp [Within.credit] <;> first | exact hunits | exact hescaped
  | zero =>
    simp only [Within.step] at h
    split_ifs at h
    exact plainStep_credit h
  | carriage =>
    simp only [Within.step] at h
    split_ifs at h
    · cases h
      simp [Within.credit]
    · exact plainStep_credit h
  | code more value => exact codeStep_credit h
  | unicode =>
    simp only [Within.step] at h
    split_ifs at h
    · cases h
      exact hunits
    · exact codeStep_credit h
  | braced value =>
    simp only [Within.step] at h
    split_ifs at h with hbrace
    · obtain ⟨n, -, h⟩ := Option.map_eq_some_iff.mp h
      cases h
      have hcode := length_pointUnits_le n
      simp only [Within.credit]
      omega
    · obtain ⟨digit, -, h⟩ := Option.bind_eq_some_iff.mp h
      split_ifs at h
      cases h
      simp [Within.credit]
  | closed => cases h

/-- A slash ends every escape that it is not wrong in. -/
theorem step_slash {s next : Within} {given : List Nat} (h : s.step '/' = some (given, next)) : next = .plain := by
  cases s with
  | code more value => cases h
  | braced value => cases h
  | plain | escape | zero | carriage | unicode | closed => cases h <;> rfl

section
variable {word rest : List Char} {literals : List (List Nat)} {last : Lexer}

/-- A literal that is closed at this place. -/
theorem closed_literal {s : Within} {c : Char} {given : List Nat} (hstep : s.step c = some (given, .closed))
    {units : List Nat} {text : List Char} (h : feed Lexer.step (.within s units) (c :: text) = some (literals, last)) :
    ∃ others, literals = (units ++ given) :: others := by
  rw [feed_cons (Lexer.step_close hstep units), Option.map_eq_some_iff] at h
  obtain ⟨⟨more, last'⟩, -, e⟩ := h
  exact ⟨more, (Prod.mk.inj e).1.symm⟩

/-- However the text in front of the slash reads, the literal is closed at the last quote at the
latest. -/
theorem first_literal_le (hword : word.all isQuotable = true) : ∀ (text : List Char) {s : Within} {units : List Nat},
    s ≠ .closed → feed Lexer.step (.within s units) (text ++ '/' :: (word ++ '\'' :: rest)) = some (literals, last) →
      ∃ first others, literals = first :: others ∧
        first.length ≤ units.length + ((text ++ '/' :: word).flatMap charUnits).length + s.credit
  | [], s, units, hne, h => by
    rw [List.nil_append] at h
    cases hstep : s.step '/' with
    | none => rw [feed_cons_none (by simp [Lexer.step, hstep])] at h; cases h
    | some p =>
      obtain ⟨given, next⟩ := p
      have hcredit := step_credit hstep
      obtain rfl := step_slash hstep
      have hopen : feed Lexer.step (.within .plain (units ++ given)) word =
          some ([], .within .plain (units ++ given ++ word.flatMap charUnits)) :=
        feed_within (units ++ given) (feed_quotable hword) (by decide)
      rw [feed_silent (Lexer.step_open hstep (by decide) units), feed_append_silent hopen] at h
      obtain ⟨others, rfl⟩ := closed_literal rfl h
      refine ⟨_, others, rfl, ?_⟩
      change given.length ≤ _ at hcredit
      simp only [List.length_append, List.nil_append, List.flatMap_cons, List.length_nil]
      omega
  | c :: text, s, units, hne, h => by
    rw [List.cons_append] at h
    rw [List.cons_append, List.flatMap_cons, List.length_append]
    cases hstep : s.step c with
    | none => rw [feed_cons_none (by simp [Lexer.step, hstep])] at h; cases h
    | some p =>
      obtain ⟨given, next⟩ := p
      have hcredit := step_credit hstep
      by_cases hclosed : next = .closed
      · subst hclosed
        obtain ⟨others, rfl⟩ := closed_literal hstep h
        refine ⟨_, others, rfl, ?_⟩
        rw [List.length_append]
        omega
      · rw [feed_silent (Lexer.step_open hstep hclosed units)] at h
        obtain ⟨first, others, rfl, hlength⟩ := first_literal_le hword text hclosed h
        refine ⟨first, others, rfl, ?_⟩
        rw [List.length_append] at hlength
        omega

/-- A quote closes the literal early, and a backslash leaves out the unit that it is itself. -/
theorem first_literal_lt (hword : word.all isQuotable = true) : ∀ {text : List Char} {units : List Nat},
    text.all isQuotable = false →
      feed Lexer.step (.within .plain units) (text ++ '/' :: (word ++ '\'' :: rest)) = some (literals, last) →
      ∃ first others, literals = first :: others ∧
        first.length < units.length + ((text ++ '/' :: word).flatMap charUnits).length
  | [], _, hspecial, _ => by cases hspecial
  | c :: text, units, hspecial, h => by
    rw [List.cons_append] at h
    rw [List.cons_append, List.flatMap_cons, List.length_append]
    have hunits := one_le_charUnits c
    by_cases hc : isQuotable c = true
    · rw [List.all_cons, hc, Bool.true_and] at hspecial
      have hstep : Within.plain.step c = some (charUnits c, .plain) := by
        simp [Within.step, Within.plainStep, isQuotable_iff.mp hc]
      rw [feed_silent (Lexer.step_open hstep (by decide) units)] at h
      obtain ⟨first, others, rfl, hlength⟩ := first_literal_lt hword hspecial h
      refine ⟨first, others, rfl, ?_⟩
      rw [List.length_append] at hlength
      omega
    rw [isQuotable_iff] at hc
    by_cases hquote : c = '\''
    · subst hquote
      obtain ⟨others, rfl⟩ := closed_literal rfl h
      refine ⟨_, others, rfl, ?_⟩
      rw [List.append_nil]
      omega
    by_cases hbackslash : c = '\\'
    · subst hbackslash
      have hstep : Within.plain.step '\\' = some ([], .escape) := by decide
      rw [feed_silent (Lexer.step_open hstep (by decide) units), List.append_nil] at h
      obtain ⟨first, others, rfl, hlength⟩ := first_literal_le hword text (by decide) h
      refine ⟨first, others, rfl, ?_⟩
      simp only [Within.credit] at hlength
      omega
    · have hline : c = '\n' ∨ c = '\r' := by
        by_contra hline
        rw [not_or] at hline
        exact hc ⟨hquote, hbackslash, hline⟩
      rw [feed_cons_none (by simp [Lexer.step, Within.step, Within.plainStep, hquote, hbackslash, hline])] at h
      cases h

end

end TypeScript

end TypedContent

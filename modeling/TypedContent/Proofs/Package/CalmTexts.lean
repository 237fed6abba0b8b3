import Mathlib
import TypedContent.Proofs.Json.Words
import TypedContent.Proofs.Package.Lines

/-!
# Values and definitions over several lines

A printed value and the body of a definition break lines, but each line after the first begins
with a blank or with the bracket that closes the whole. So none of them declares anything, whatever
the strings, comments and keys hold.
-/

namespace TypedContent

/-! ## Numbers -/

theorem newline_toDigits (n : Nat) : '\n' ∉ Nat.toDigits 10 n :=
  fun h => absurd (Json.isDigit_toDigits _ h) (by decide)

theorem Double.newline_dropTrailingZeros {digits : List Char} (h : '\n' ∉ digits) : '\n' ∉ dropTrailingZeros digits := by
  intro hc
  rw [dropTrailingZeros, List.mem_reverse] at hc
  exact h (List.mem_reverse.mp ((List.dropWhile_sublist _).subset hc))

theorem Double.newline_layout {digits : List Char} (h : '\n' ∉ digits) (point : Int) : '\n' ∉ layout digits point := by
  have htake : ∀ n, '\n' ∉ digits.take n := fun n hc => h (List.mem_of_mem_take hc)
  have hdrop : ∀ n, '\n' ∉ digits.drop n := fun n hc => h (List.mem_of_mem_drop hc)
  have hdigits := newline_toDigits (point - 1).natAbs
  unfold layout
  split
  · split
    · simp [h]
    · dsimp only
      split <;> simp [htake, hdrop]
  · dsimp only
    split <;> split <;> simp_all

theorem Double.newline_text (x : Double) : '\n' ∉ x.text := by
  have hbody : ∀ body : List Char, '\n' ∉ body → '\n' ∉ (if x.isNegative then '-' :: body else body) := by
    intro body h
    split <;> simp [h]
  refine hbody _ ?_
  split
  · decide
  · exact newline_layout (newline_dropTrailingZeros (newline_toDigits _)) _

theorem newline_printNumber : ∀ n : Number, '\n' ∉ Json.printNumber n
  | .int n => by
    have h := newline_toDigits n.natAbs
    rw [Json.printNumber, Json.printInt]
    split <;> simp [h]
  | .double x => x.newline_text

theorem newline_quote (s : String) : '\n' ∉ Json.quote s := by
  have hcontrol : ∀ n < 32, '\n' ∉ Json.escape (Char.ofNat n) := by decide
  have hescape : ∀ c, '\n' ∉ Json.escape c := by
    intro c
    by_cases hc : c.toNat < 32
    · rw [← Char.ofNat_toNat c]
      exact hcontrol _ hc
    · have hne : '\n' ≠ c := fun e => hc (by rw [← e]; decide)
      unfold Json.escape
      repeat' split
      all_goals simp_all
  simp [Json.quote, hescape]

namespace Package

/-! ## JSON values -/

theorem calm_lineBreak (depth : Nat) {text : List Char} (h : Calm text) :
    Calm (Json.Layout.pretty.lineBreak (depth + 1) ++ text) := by
  have hblanks : '\n' ∉ List.replicate (2 * depth + 1) ' ' := fun hc => absurd (List.eq_of_mem_replicate hc) (by decide)
  exact calm_break (mute_blank (calm_append_of_line hblanks h))

theorem mute_close (depth : Nat) {c : Char} (hc : c ∈ continuations) :
    Mute (Json.Layout.pretty.lineBreak depth ++ [c]) :=
  ⟨calm_break ((mute_blanks _).append (mute_single hc)), by simp [Json.Layout.lineBreak, continuations]⟩

theorem mute_comma {text : List Char} (h : Calm text) : Mute (',' :: text) :=
  ⟨calm_cons (by decide) h, by simp [continuations]⟩

theorem calm_member (k : String) {text : List Char} (h : Calm text) :
    Calm (Json.quote k ++ (Json.Layout.pretty.colon ++ text)) :=
  calm_append_of_line (newline_quote k) (calm_append_of_line (by decide) h)

mutual

theorem calm_print (depth : Nat) : ∀ v : Json, Calm (Json.print .pretty depth v)
  | .null | .bool true | .bool false | .arr [] | .obj [] => by
    rw [Json.print]
    exact calm_of_line (by decide)
  | .num n => by
    rw [Json.print]
    exact calm_of_line (newline_printNumber n)
  | .str s => by
    rw [Json.print]
    exact calm_of_line (newline_quote s)
  | .arr (x :: xs) => by
    have hitems := (calm_print (depth + 1) x).append (mute_printItems depth xs)
    rw [Json.print]
    exact calm_cons (by decide) (calm_lineBreak depth hitems)
  | .obj ((k, x) :: ms) => by
    have hmembers := (calm_print (depth + 1) x).append (mute_printMembers depth ms)
    rw [Json.print]
    exact calm_cons (by decide) (calm_lineBreak depth (calm_member k hmembers))

theorem mute_printItems (depth : Nat) : ∀ xs : List Json, Mute (Json.printItems .pretty depth xs)
  | [] => by
    rw [Json.printItems]
    exact mute_close depth (by decide)
  | x :: xs => by
    have hitems := (calm_print (depth + 1) x).append (mute_printItems depth xs)
    rw [Json.printItems]
    exact mute_comma (calm_lineBreak depth hitems)

theorem mute_printMembers (depth : Nat) : ∀ ms : List (String × Json), Mute (Json.printMembers .pretty depth ms)
  | [] => by
    rw [Json.printMembers]
    exact mute_close depth (by decide)
  | (k, x) :: ms => by
    have hmembers := (calm_print (depth + 1) x).append (mute_printMembers depth ms)
    rw [Json.printMembers]
    exact mute_comma (calm_lineBreak depth (calm_member k hmembers))

end

/-! ## Definitions -/

open TypeScript

theorem Calm.ended {text : List Char} (h : Calm text) : Calm (text ++ ['\n']) := h.append (mute_single (by decide))

theorem mute_indented {indent : String} (hi : ∀ c ∈ indent.toList, c = ' ') {text : List Char} (h : Calm text) :
    Mute (indent.toList ++ ' ' :: text) := by
  have hblanks : Mute indent.toList := by
    rw [List.eq_replicate_of_mem hi]
    exact mute_blanks _
  exact hblanks.append (mute_blank h)

/-- The last line break is kept apart, as a declaration may come right after it. -/
theorem docComment_calm {indent : String} (hi : ∀ c ∈ indent.toList, c = ' ') (texts : List String) :
    ∃ text, (docComment indent texts).toList = indent.toList ++ '/' :: '*' :: (text ++ ['\n']) ∧ Calm text := by
  have hlines : ∀ line ∈ (texts.flatMap fun t => textLines t.toList).map fun l => String.ofList (disarm l),
      OneLine line := by
    intro line hline
    obtain ⟨l, hl, rfl⟩ := List.mem_map.mp hline
    obtain ⟨t, -, hl⟩ := List.mem_flatMap.mp hl
    rw [OneLine, String.toList_ofList]
    exact newline_disarm (oneLine_textLines _ l hl)
  unfold docComment
  -- of the lines nothing counts but that each of them is one
  generalize (texts.flatMap fun t => textLines t.toList).map (fun l => String.ofList (disarm l)) = lines at hlines ⊢
  split
  · next line =>
    rw [List.forall_mem_singleton] at hlines
    have hline : OneLine ("* " ++ line ++ " */") := by
      rw [oneLine_append, oneLine_append]
      exact ⟨⟨by decide, hlines⟩, by decide⟩
    exact ⟨("* " ++ line ++ " */").toList, by simp, calm_of_line hline⟩
  · have hinner : Mute (String.join (lines.map fun l => indent ++ " * " ++ l ++ "\n")).toList := by
      refine mute_join (List.forall_mem_map.mpr fun l hl => ?_)
      have hstar : '\n' ∉ ("* " ++ l).toList := oneLine_append.mpr ⟨by decide, hlines l hl⟩
      simpa using mute_indented hi (calm_of_line hstar).ended
    have hclose : Mute (indent.toList ++ " */".toList) := mute_indented hi (calm_of_line (by decide))
    refine ⟨'*' :: '\n' :: ((String.join (lines.map fun l => indent ++ " * " ++ l ++ "\n")).toList ++
      (indent.toList ++ " */".toList)), by simp, ?_⟩
    exact calm_cons (by decide) (calm_break (hinner.append hclose))

theorem mute_memberLine (notes : List String) {member : String} (h : OneLine member) :
    Mute (memberLine notes member).toList := by
  have hmember : Mute (' ' :: ' ' :: (member.toList ++ ['\n'])) :=
    mute_blank (calm_cons (by decide) (calm_of_line h).ended)
  unfold memberLine memberComment
  split
  · simpa using hmember
  · obtain ⟨text, e, hcalm⟩ := docComment_calm (by simp : ∀ c ∈ "  ".toList, c = ' ') notes
    have hcomment : Mute (docComment "  " notes).toList := by
      rw [e]
      exact mute_blank (calm_cons (by decide) (calm_cons (by decide) (calm_cons (by decide) hcalm.ended)))
    simpa using hcomment.append hmember

theorem members_eq_map : ∀ fields : List Canonical.Field,
    members fields = fields.map fun f => fieldKey f.toAttributes ++ ": " ++ typeOf f.kind
  | [] => by rw [members, List.map_nil]
  | ⟨a, kind⟩ :: rest => by rw [members, members_eq_map rest, List.map_cons]

theorem mute_bodyLines {d : Definition} (h : ∀ l ∈ links d.fields, OneLine l.target) :
    ∀ s ∈ bodyLines d, Mute s.toList := by
  have hcolon : OneLine ": " := by decide
  have hname : Mute ("  " ++ typeNameField ++ ": " ++ stringLiteral d.name ++ "\n").toList := by
    rw [typeNameMember_memberLine]
    refine mute_memberLine _ ?_
    rw [oneLine_append, oneLine_append]
    exact ⟨⟨oneLine_propertyName typeNameField, hcolon⟩, oneLine_stringLiteral d.name⟩
  have hfields : ∀ f ∈ d.fields, Mute (renderField f).toList := by
    intro f hf
    have hmembers := oneLine_members d.fields h
    rw [members_eq_map] at hmembers
    rw [renderField_memberLine]
    exact mute_memberLine _ (List.forall_mem_map.mp hmembers f hf)
  have hcomputed : ∀ c ∈ d.computed, Mute (renderComputed c).toList := by
    intro c _
    rw [renderComputed_memberLine]
    refine mute_memberLine _ ?_
    rw [oneLine_append, oneLine_append]
    exact ⟨⟨oneLine_propertyName c.name, hcolon⟩, oneLine_computedTypeOf c.type⟩
  unfold bodyLines
  simp only [List.forall_mem_append, List.forall_mem_map, List.forall_mem_singleton]
  refine ⟨⟨⟨?_, hname⟩, hfields⟩, hcomputed⟩
  cases d with
  | document =>
    rw [List.forall_mem_singleton, pathMember_memberLine]
    exact mute_memberLine _ (by decide)
  | object => simp

end Package

end TypedContent

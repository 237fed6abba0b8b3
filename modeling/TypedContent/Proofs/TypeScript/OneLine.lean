import Mathlib.Data.List.Induction
import TypedContent.Proofs.TypeScript.Pieces

/-!
# Texts on one line

A type is written on one line, whatever its literals and keys hold, if the names that it refers to
are. So is each line of a comment.
-/

namespace TypedContent

def OneLine (s : String) : Prop := '\n' ∉ s.toList

instance (s : String) : Decidable (OneLine s) := inferInstanceAs (Decidable ('\n' ∉ s.toList))

theorem oneLine_append {a b : String} : OneLine (a ++ b) ↔ OneLine a ∧ OneLine b := by
  simp [OneLine]

theorem oneLine_intercalate {sep : String} (hs : OneLine sep) : ∀ {texts : List String}, (∀ s ∈ texts, OneLine s) →
    OneLine (sep.intercalate texts)
  | [], _ => by simp [OneLine]
  | [s], h => by simpa using h
  | s :: s' :: texts, h => by
    rw [List.forall_mem_cons] at h
    rw [String.intercalate_cons_cons, oneLine_append, oneLine_append]
    exact ⟨⟨h.1, hs⟩, oneLine_intercalate hs h.2⟩

namespace TypeScript

theorem oneLine_identifier {name : String} (h : isIdentifier name = true) : OneLine name :=
  fun hc => absurd (continues_of_identifier h hc) (by decide)

theorem oneLine_stringLiteral (value : String) : OneLine (stringLiteral value) := by
  have hescape : ∀ c, '\n' ∉ escape c := by
    intro c
    unfold escape
    repeat' split
    all_goals simp
    next h => exact Ne.symm h
  simp [OneLine, stringLiteral, hescape]

/-! ## Types -/

theorem oneLine_piecewise : Piecewise fun text _ => OneLine text where
  bare h hc := absurd (h.isBare hc) (by decide)
  literal := oneLine_stringLiteral
  append ha hb := oneLine_append.mpr ⟨ha, hb⟩

theorem oneLine_propertyName (name : String) : OneLine (propertyName name) := oneLine_piecewise.propertyName name

theorem oneLine_members (fields : List Canonical.Field) (h : ∀ l ∈ links fields, OneLine l.target) :
    ∀ s ∈ members fields, OneLine s := by
  rw [members_eq, List.forall_mem_map]
  exact oneLine_piecewise.members fields h

theorem oneLine_computedTypeOf (type : ComputedType) : OneLine (computedTypeOf type) := by
  cases type <;> decide

/-! ## Lines of a comment -/

theorem oneLine_textLines (text : List Char) : ∀ line ∈ textLines text, '\n' ∉ line := by
  fun_induction textLines text with
  | case1 => simp
  | case2 rest ih => simpa using ih
  | case3 rest ih => simpa using ih
  | case4 c rest hcr hc line lines e ih =>
    rw [e, List.forall_mem_cons] at ih
    rw [List.forall_mem_cons]
    refine ⟨?_, ih.2⟩
    rw [List.mem_cons, not_or]
    exact ⟨fun e => hc e.symm, ih.1⟩
  | case5 c rest hcr hc e ih => simpa using fun e => hc e.symm

theorem newline_disarm {text : List Char} (h : '\n' ∉ text) : '\n' ∉ disarm text := by
  fun_induction disarm text with
  | case1 rest ih => simpa using ih (by simpa using h)
  | case2 c rest hc ih =>
    rw [List.mem_cons, not_or] at h ⊢
    exact ⟨h.1, ih h.2⟩
  | case3 => simp

end TypeScript

end TypedContent

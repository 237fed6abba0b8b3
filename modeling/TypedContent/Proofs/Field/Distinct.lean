import TypedContent.Proofs.Except
import TypedContent.Proofs.Field.Level

/-!
# Names that differ on every level

`checkNames` accepts fields if and only if no level of them repeats a name. It does not
matter where the fields stand: the owner only shows in the error.
-/

namespace TypedContent

variable {Label : Type}

def DistinctNames (fields : List (Field Label)) : Prop :=
  ∀ level, Level fields level → (level.map (·.name)).Nodup

theorem distinctNames_iff {fields : List (Field Label)} :
    DistinctNames fields ↔
      (fields.map (·.name)).Nodup ∧ ∀ f ∈ fields, ∀ inner, f.kind.Holds inner → DistinctNames inner :=
  forall_level_iff

/-- One level: the names differ from each other and from those seen before, and every field
is accepted on its own. -/
theorem checkNames_eq_ok {owner : String} {fields : List (Field Label)} : ∀ {seen : List String},
    checkNames owner seen fields = .ok () ↔
      (fields.map (·.name)).Nodup ∧ (∀ f ∈ fields, f.name ∉ seen) ∧
        ∀ f ∈ fields, f.kind.checkNames (owner ++ "." ++ f.name) = .ok () := by
  induction fields with
  | nil => intro seen; simp [checkNames]
  | cons f rest ih =>
    intro seen
    obtain ⟨a, kind⟩ := f
    rw [checkNames, List.map_cons, List.nodup_cons, List.forall_mem_cons, List.forall_mem_cons]
    by_cases h : a.name ∈ seen
    · simp [h]
    · simp only [h, ite_false, check_bind_eq_ok, ih, List.mem_map, List.mem_cons, not_or]
      constructor
      · intro hall
        obtain ⟨hk, hd, hs, hr⟩ := hall
        exact ⟨⟨fun ⟨g, hg, e⟩ => (hs g hg).1 e, hd⟩, ⟨not_false, fun g hg => (hs g hg).2⟩, hk, hr⟩
      · intro hall
        obtain ⟨⟨hn, hd⟩, ⟨-, hs⟩, hk, hr⟩ := hall
        exact ⟨hk, hd, fun g hg => ⟨fun e => hn ⟨g, hg, e⟩, hs g hg⟩, hr⟩

theorem checkItemNames_eq_ok {path : String} {items : List (Item Label)} :
    checkItemNames path items = .ok () ↔
      ∀ item ∈ items, ∀ inner, item.kind = .inlineObject inner → checkNames path [] inner = .ok () := by
  induction items with
  | nil => simp [checkItemNames]
  | cons item rest ih =>
    obtain ⟨labelField, kind⟩ := item
    cases kind <;> simp [checkItemNames, check_bind_eq_ok, ih]

theorem kind_checkNames_eq_ok {path : String} {kind : Kind Label} :
    kind.checkNames path = .ok () ↔ ∀ inner, kind.Holds inner → checkNames path [] inner = .ok () := by
  simp only [holds_iff]
  cases kind with
  | inlineObject fields => simp [Kind.checkNames, Kind.items]
  | list item =>
    obtain ⟨labelField, kind⟩ := item
    cases kind <;> simp [Kind.checkNames, Kind.items]
  | polymorphicList items typeField =>
    rw [Kind.checkNames, checkItemNames_eq_ok]
    simp only [Kind.items]
    grind
  | _ => simp [Kind.checkNames, Kind.items]

theorem checkNames_iff (fields : List (Field Label)) :
    ∀ owner, checkNames owner [] fields = .ok () ↔ DistinctNames fields := by
  induction fields using fields_induction with
  | step fields ih =>
    intro owner
    rw [checkNames_eq_ok, distinctNames_iff]
    have inside : ∀ f ∈ fields, f.kind.checkNames (owner ++ "." ++ f.name) = .ok () ↔
        ∀ inner, f.kind.Holds inner → DistinctNames inner := by
      intro f hf
      rw [kind_checkNames_eq_ok]
      constructor
      · intro h inner hin; exact (ih f hf inner hin _).mp (h inner hin)
      · intro h inner hin; exact (ih f hf inner hin _).mpr (h inner hin)
    constructor
    · intro hall
      obtain ⟨hd, -, hk⟩ := hall
      exact ⟨hd, fun f hf => (inside f hf).mp (hk f hf)⟩
    · intro hall
      obtain ⟨hd, hin⟩ := hall
      exact ⟨hd, by simp, fun f hf => (inside f hf).mpr (hin f hf)⟩

end TypedContent

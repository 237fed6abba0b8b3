import TypedContent.Field

/-!
# Levels of fields

Fields nest through inline objects, which stand in a field or among the items of a list. A
level of some fields is the list itself or, at any depth, the list of fields of an inline
object. What is said of fields at every depth is said of their levels, and
`fields_induction` is how it is proved. The references listed by `links` are exactly those
that a field of some level makes.
-/

namespace TypedContent

variable {Label : Type}

def Kind.items : Kind Label → List (Item Label)
  | .list item => [item]
  | .polymorphicList items _ => items
  | _ => []

/-- The fields are those of an inline object: of the kind itself or of one of its items. -/
inductive Kind.Holds : Kind Label → List (Field Label) → Prop
  | inlineObject {fields} : Holds (.inlineObject fields) fields
  | item {kind item fields} : item ∈ kind.items → item.kind = .inlineObject fields → Holds kind fields

theorem holds_iff {kind : Kind Label} {inner : List (Field Label)} :
    kind.Holds inner ↔ kind = .inlineObject inner ∨ ∃ item ∈ kind.items, item.kind = .inlineObject inner := by
  constructor
  · intro h
    cases h with
    | inlineObject => exact Or.inl rfl
    | item hm hk => exact Or.inr ⟨_, hm, hk⟩
  · intro h
    rcases h with rfl | ⟨item, hm, hk⟩
    · exact .inlineObject
    · exact .item hm hk

def ItemOf.inlineFields? (item : Item Label) : Option (List (Field Label)) :=
  match item.kind with
  | .inlineObject fields => some fields
  | _ => none

/-- The fields of each inline object of a kind. -/
def Kind.inlineFields : Kind Label → List (List (Field Label))
  | .inlineObject fields => [fields]
  | kind => kind.items.filterMap ItemOf.inlineFields?

theorem inlineFields?_eq_some {item : Item Label} {inner : List (Field Label)} :
    item.inlineFields? = some inner ↔ item.kind = .inlineObject inner := by
  unfold ItemOf.inlineFields?
  split <;> simp_all

theorem mem_inlineFields {kind : Kind Label} {inner : List (Field Label)} :
    inner ∈ kind.inlineFields ↔ kind.Holds inner := by
  rw [holds_iff]
  cases kind with
  | list item => simp [Kind.inlineFields, Kind.items, ← inlineFields?_eq_some, eq_comm]
  | polymorphicList items _ => simp [Kind.inlineFields, Kind.items, inlineFields?_eq_some]
  | _ => simp [Kind.inlineFields, Kind.items, eq_comm]

inductive Level : List (Field Label) → List (Field Label) → Prop
  | top {fields} : Level fields fields
  | inside {fields inner level f} : f ∈ fields → f.kind.Holds inner → Level inner level → Level fields level

theorem forall_level_iff {P : List (Field Label) → Prop} {fields : List (Field Label)} :
    (∀ level, Level fields level → P level) ↔
      P fields ∧ ∀ f ∈ fields, ∀ inner, f.kind.Holds inner → ∀ level, Level inner level → P level := by
  constructor
  · intro h
    exact ⟨h fields .top, fun f hf inner hin level hl => h level (.inside hf hin hl)⟩
  · intro hall level hl
    obtain ⟨htop, hin⟩ := hall
    cases hl with
    | top => exact htop
    | inside hf hh hl => exact hin _ hf _ hh level hl

/-! ## Induction on the depth -/

theorem Kind.Holds.sizeOf_lt {kind : Kind Label} {inner : List (Field Label)} (h : kind.Holds inner) :
    sizeOf inner < sizeOf kind := by
  cases h with
  | inlineObject => simp
  | @item _ item _ hm hk =>
    have hi : sizeOf inner < sizeOf item := by
      obtain ⟨labelField, itemKind⟩ := item
      simp only at hk
      subst hk
      simp only [ItemOf.mk.sizeOf_spec, ItemKind.inlineObject.sizeOf_spec]
      omega
    cases kind with
    | list item =>
      rw [Kind.items, List.mem_singleton] at hm
      subst hm
      simp only [Kind.list.sizeOf_spec]
      omega
    | polymorphicList items typeField =>
      have := List.sizeOf_lt_of_mem (show _ ∈ items from hm)
      simp only [Kind.polymorphicList.sizeOf_spec]
      omega
    | _ => cases hm

theorem sizeOf_inner_lt {fields inner : List (Field Label)} {f : Field Label} (hf : f ∈ fields)
    (h : f.kind.Holds inner) : sizeOf inner < sizeOf fields := by
  have hk := h.sizeOf_lt
  have hm := List.sizeOf_lt_of_mem hf
  obtain ⟨a, kind⟩ := f
  simp only [FieldOf.mk.sizeOf_spec] at hk hm
  omega

/-- What holds of fields as soon as it holds of the fields of their inline objects holds of
all fields. -/
theorem fields_induction {P : List (Field Label) → Prop}
    (step : ∀ fields, (∀ f ∈ fields, ∀ inner, f.kind.Holds inner → P inner) → P fields)
    (fields : List (Field Label)) : P fields :=
  step fields fun _ hf inner hin =>
    have := sizeOf_inner_lt hf hin
    fields_induction step inner
termination_by sizeOf fields

/-! ## References -/

inductive Kind.RefersTo : Kind Label → TableKind → String → Prop
  | object {target} : RefersTo (.object target) .object target
  | reference {target} : RefersTo (.reference target) .document target
  | item {kind item target} : item ∈ kind.items → item.kind = .object target → RefersTo kind .object target

theorem refersTo_iff {kind : Kind Label} {table : TableKind} {target : String} :
    kind.RefersTo table target ↔ table = .object ∧ kind = .object target ∨ table = .document ∧ kind = .reference target ∨
      table = .object ∧ ∃ item ∈ kind.items, item.kind = .object target := by
  constructor
  · intro h
    cases h with
    | object => exact Or.inl ⟨rfl, rfl⟩
    | reference => exact Or.inr (Or.inl ⟨rfl, rfl⟩)
    | item hm hk => exact Or.inr (Or.inr ⟨rfl, _, hm, hk⟩)
  · intro h
    rcases h with ⟨rfl, rfl⟩ | ⟨rfl, rfl⟩ | ⟨rfl, item, hm, hk⟩
    · exact .object
    · exact .reference
    · exact .item hm hk

def Makes (fields : List (Field Label)) (l : Link) : Prop :=
  ∃ level, Level fields level ∧ ∃ f ∈ level, f.name = l.field ∧ f.kind.RefersTo l.table l.target

theorem makes_iff {fields : List (Field Label)} {l : Link} :
    Makes fields l ↔ ∃ f ∈ fields,
      f.name = l.field ∧ f.kind.RefersTo l.table l.target ∨ ∃ inner, f.kind.Holds inner ∧ Makes inner l := by
  constructor
  · intro h
    obtain ⟨level, hl, f, hf, h⟩ := h
    cases hl with
    | top => exact ⟨f, hf, Or.inl h⟩
    | inside hg hin hl => exact ⟨_, hg, Or.inr ⟨_, hin, level, hl, f, hf, h⟩⟩
  · intro h
    rcases h with ⟨f, hf, h | ⟨inner, hin, level, hl, h⟩⟩
    · exact ⟨fields, .top, f, hf, h⟩
    · exact ⟨level, .inside hf hin hl, h⟩

theorem mem_itemLinks {items : List (Item Label)} {field : String} {l : Link} :
    l ∈ itemLinks field items ↔
      field = l.field ∧ l.table = .object ∧ (∃ item ∈ items, item.kind = .object l.target) ∨
        ∃ inner, (∃ item ∈ items, item.kind = .inlineObject inner) ∧ l ∈ links inner := by
  obtain ⟨table, name, target⟩ := l
  induction items with
  | nil => simp [itemLinks]
  | cons item rest ih =>
    obtain ⟨labelField, kind⟩ := item
    cases kind <;> simp only [itemLinks, List.mem_cons, List.mem_append, ih] <;> grind

theorem links_list {item : Item Label} {field : String} :
    (Kind.list item).links field = itemLinks field [item] := by
  obtain ⟨_, kind⟩ := item
  cases kind <;> simp [Kind.links, itemLinks]

theorem itemLinks_cons {item : Item Label} {rest : List (Item Label)} {field : String} :
    itemLinks field (item :: rest) = itemLinks field [item] ++ itemLinks field rest := by
  obtain ⟨_, kind⟩ := item
  cases kind <;> simp [itemLinks]

theorem mem_kind_links {kind : Kind Label} {field : String} {l : Link} :
    l ∈ kind.links field ↔
      field = l.field ∧ kind.RefersTo l.table l.target ∨ ∃ inner, kind.Holds inner ∧ l ∈ links inner := by
  rw [refersTo_iff]
  simp only [holds_iff]
  cases kind with
  | list item => rw [links_list, mem_itemLinks]; simp [Kind.items]
  | polymorphicList items typeField => rw [Kind.links, mem_itemLinks]; simp [Kind.items]
  | inlineObject fields => simp [Kind.links, Kind.items]
  | object target =>
    obtain ⟨table, name, target'⟩ := l
    simp only [Kind.links, Kind.items, List.mem_singleton, Link.mk.injEq, Kind.object.injEq]
    grind
  | reference target =>
    obtain ⟨table, name, target'⟩ := l
    simp only [Kind.links, Kind.items, List.mem_singleton, Link.mk.injEq, Kind.reference.injEq]
    grind
  | _ => simp [Kind.links, Kind.items]

theorem mem_links {fields : List (Field Label)} {l : Link} :
    l ∈ links fields ↔ ∃ f ∈ fields, l ∈ f.kind.links f.name := by
  induction fields with
  | nil => simp [links]
  | cons f rest ih => simp [links, ih]

theorem mem_links_iff {l : Link} (fields : List (Field Label)) : l ∈ links fields ↔ Makes fields l := by
  induction fields using fields_induction with
  | step fields ih =>
    rw [mem_links, makes_iff]
    constructor
    · intro h
      obtain ⟨f, hf, h⟩ := h
      rcases mem_kind_links.mp h with h | ⟨inner, hin, h⟩
      · exact ⟨f, hf, Or.inl h⟩
      · exact ⟨f, hf, Or.inr ⟨inner, hin, (ih f hf inner hin).mp h⟩⟩
    · intro h
      rcases h with ⟨f, hf, h | ⟨inner, hin, h⟩⟩
      · exact ⟨f, hf, mem_kind_links.mpr (Or.inl h)⟩
      · exact ⟨f, hf, mem_kind_links.mpr (Or.inr ⟨inner, hin, (ih f hf inner hin).mpr h⟩)⟩

end TypedContent

import TypedContent.Proofs.Field.Level

/-!
# The order of references

A reference stands at a place in some fields: the index of a field, then the index of an item
if the field is a list, then on inside an inline object. Places are compared from the left, so
what stands in one field comes before what stands in the next, at any depth. `links` gives the
references in the order of their places, and the first one with a property is the one at the
least place.
-/

namespace TypedContent

variable {Label α β : Type}

mutual

inductive Stands : List (Field Label) → List Nat → Link → Prop
  | field {fields i f place l} : fields[i]? = some f → f.kind.Stands f.name place l → Stands fields (i :: place) l

/-- What stands in a kind, if the field of the given name has it. -/
inductive Kind.Stands : Kind Label → String → List Nat → Link → Prop
  | object {name target} : Kind.Stands (.object target) name [] ⟨.object, name, target⟩
  | reference {name target} : Kind.Stands (.reference target) name [] ⟨.document, name, target⟩
  | inlineObject {fields name place l} : Stands fields place l → Kind.Stands (.inlineObject fields) name place l
  | item {kind name j item place l} : kind.items[j]? = some item → item.kind.Stands name place l →
    Kind.Stands kind name (j :: place) l

inductive ItemKind.Stands : ItemKind (Field Label) → String → List Nat → Link → Prop
  | object {name target} : ItemKind.Stands (.object target) name [] ⟨.object, name, target⟩
  | inlineObject {fields name place l} : Stands fields place l → ItemKind.Stands (.inlineObject fields) name place l

end

/-! ## Lists in the order of places -/

/-- The list holds what a relation has at its places, by place. -/
def Enumerates (R : List Nat → α → Prop) (as : List α) : Prop :=
  ∃ entries : List (List Nat × α), entries.map Prod.snd = as ∧ entries.Pairwise (·.1 < ·.1) ∧
    ∀ place a, R place a ↔ (place, a) ∈ entries

/-- What stands at the least place among all that have the property. -/
def First (R : List Nat → α → Prop) (p : α → Prop) (a : α) : Prop :=
  ∃ place, R place a ∧ p a ∧ ∀ earlier b, R earlier b → earlier < place → ¬p b

theorem enumerates_nil {R : List Nat → α → Prop} (h : ∀ place a, ¬R place a) : Enumerates R [] :=
  ⟨[], rfl, .nil, fun place a => by simp [h place a]⟩

theorem enumerates_single {R : List Nat → α → Prop} {a : α} (h : ∀ place b, R place b ↔ place = [] ∧ b = a) :
    Enumerates R [a] :=
  ⟨[([], a)], rfl, by simp, fun place b => by simp [h place b]⟩

theorem Enumerates.congr {R R' : List Nat → α → Prop} {as : List α} (h : Enumerates R as)
    (hR : ∀ place a, R' place a ↔ R place a) : Enumerates R' as := by
  obtain ⟨entries, hsnd, hlt, hmem⟩ := h
  exact ⟨entries, hsnd, hlt, fun place a => (hR place a).trans (hmem place a)⟩

theorem Enumerates.map {R : List Nat → α → Prop} {as : List α} (h : Enumerates R as) (f : α → β) :
    Enumerates (fun place b => ∃ a, R place a ∧ f a = b) (as.map f) := by
  obtain ⟨entries, rfl, hlt, hmem⟩ := h
  refine ⟨entries.map fun e => (e.1, f e.2), ?_, List.pairwise_map.mpr hlt, fun place b => ?_⟩
  · rw [List.map_map, List.map_map]
    rfl
  · simp only [List.mem_map, Prod.exists, Prod.mk.injEq, hmem]
    constructor
    · intro h
      obtain ⟨a, ha, rfl⟩ := h
      exact ⟨place, a, ha, rfl, rfl⟩
    · intro h
      obtain ⟨_, a, ha, rfl, rfl⟩ := h
      exact ⟨a, ha, rfl⟩

/-- What the elements of a list have at their places, with the index of the element, counted
from `n`, in front. -/
def Indexed (R : β → List Nat → α → Prop) (n : Nat) (xs : List β) (place : List Nat) (a : α) : Prop :=
  ∃ i x rest, place = (n + i) :: rest ∧ xs[i]? = some x ∧ R x rest a

theorem indexed_cons {R : β → List Nat → α → Prop} {n : Nat} {x : β} {xs : List β} {place : List Nat} {a : α} :
    Indexed R n (x :: xs) place a ↔ (∃ rest, place = n :: rest ∧ R x rest a) ∨ Indexed R (n + 1) xs place a := by
  constructor
  · intro h
    obtain ⟨i, y, rest, rfl, hy, hR⟩ := h
    cases i with
    | zero =>
      obtain rfl : x = y := by simpa using hy
      exact Or.inl ⟨rest, rfl, hR⟩
    | succ i => exact Or.inr ⟨i, y, rest, by rw [Nat.add_assoc, Nat.add_comm 1 i], by simpa using hy, hR⟩
  · intro h
    rcases h with ⟨rest, rfl, hR⟩ | ⟨i, y, rest, rfl, hy, hR⟩
    · exact ⟨0, x, rest, rfl, rfl, hR⟩
    · exact ⟨i + 1, y, rest, by rw [Nat.add_assoc, Nat.add_comm 1 i], by simpa using hy, hR⟩

/-- Lists that enumerate what each element has, one after the other, enumerate all of it. -/
theorem enumerates_flatMap {R : β → List Nat → α → Prop} {f : β → List α} : ∀ {xs : List β} {n : Nat},
    (∀ x ∈ xs, Enumerates (R x) (f x)) → Enumerates (Indexed R n xs) (xs.flatMap f)
  | [], _, _ => enumerates_nil fun place a h => by
    obtain ⟨i, x, rest, _, hx, _⟩ := h
    cases hx
  | x :: xs, n, h => by
    obtain ⟨hx, hxs⟩ := List.forall_mem_cons.mp h
    obtain ⟨entries, hsnd, hlt, hmem⟩ := hx
    obtain ⟨entries', hsnd', hlt', hmem'⟩ := enumerates_flatMap (n := n + 1) hxs
    refine ⟨entries.map (fun e => (n :: e.1, e.2)) ++ entries', ?_, ?_, ?_⟩
    · rw [List.flatMap_cons, List.map_append, List.map_map, ← hsnd, ← hsnd']
      rfl
    · refine List.pairwise_append.mpr ⟨?_, hlt', ?_⟩
      · refine List.pairwise_map.mpr (hlt.imp ?_)
        intro a b hab
        exact List.cons_lt_cons_iff.mpr (Or.inr ⟨rfl, hab⟩)
      · intro e he e' he'
        obtain ⟨e, _, rfl⟩ := List.mem_map.mp he
        -- the later places begin with a greater index
        obtain ⟨i, _, rest, hplace, _, _⟩ := (hmem' e'.1 e'.2).mpr he'
        rw [hplace]
        exact List.cons_lt_cons_iff.mpr (Or.inl (by omega))
    · intro place a
      rw [indexed_cons, hmem', List.mem_append, List.mem_map]
      constructor
      · intro h
        rcases h with ⟨rest, rfl, hR⟩ | h
        · exact Or.inl ⟨(rest, a), (hmem rest a).mp hR, rfl⟩
        · exact Or.inr h
      · intro h
        rcases h with ⟨e, he, h⟩ | h
        · cases h
          exact Or.inl ⟨e.1, rfl, (hmem e.1 e.2).mpr he⟩
        · exact Or.inr h

section
variable {R : List Nat → α → Prop} {as : List α} {p : α → Bool}

theorem Enumerates.mem (h : Enumerates R as) {a : α} : a ∈ as ↔ ∃ place, R place a := by
  obtain ⟨entries, rfl, -, hmem⟩ := h
  simp only [List.mem_map, Prod.exists, hmem]
  constructor
  · intro h
    obtain ⟨place, b, hb, rfl⟩ := h
    exact ⟨place, hb⟩
  · intro h
    obtain ⟨place, ha⟩ := h
    exact ⟨place, a, ha, rfl⟩

theorem Enumerates.find?_eq_none (h : Enumerates R as) : as.find? p = none ↔ ∀ place a, R place a → p a = false := by
  rw [List.find?_eq_none]
  constructor
  · intro hn place a hR
    simpa using hn a (h.mem.mpr ⟨place, hR⟩)
  · intro hn a ha
    obtain ⟨place, hR⟩ := h.mem.mp ha
    simp [hn place a hR]

theorem Enumerates.find?_eq_some (h : Enumerates R as) {a : α} :
    as.find? p = some a ↔ First R (fun b => p b = true) a := by
  obtain ⟨entries, rfl, hlt, hmem⟩ := h
  rw [List.find?_map, Option.map_eq_some_iff]
  constructor
  · intro h
    obtain ⟨e, he, rfl⟩ := h
    obtain ⟨hp, before, after, rfl, hbefore⟩ := List.find?_eq_some_iff_append.mp he
    refine ⟨e.1, (hmem e.1 e.2).mpr (by simp), hp, fun earlier b hb hle => ?_⟩
    rcases List.mem_append.mp ((hmem earlier b).mp hb) with hm | hm
    · simpa using hbefore _ hm
    · -- what does not come before has no lesser place
      rcases List.mem_cons.mp hm with rfl | hm
      · exact absurd hle (List.lt_irrefl _)
      · have hgt := List.rel_of_pairwise_cons (List.pairwise_append.mp hlt).2.1 hm
        exact absurd hle (List.lt_asymm hgt)
  · intro h
    obtain ⟨place, hR, hp, hleast⟩ := h
    have hin := (hmem place a).mp hR
    cases hfind : entries.find? (p ∘ Prod.snd) with
    | none => exact absurd hp (by simpa using List.find?_eq_none.mp hfind _ hin)
    | some e =>
      obtain ⟨hpe, before, after, rfl, hbefore⟩ := List.find?_eq_some_iff_append.mp hfind
      refine ⟨e, rfl, ?_⟩
      rcases List.mem_append.mp hin with hm | hm
      · exact absurd hp (by simpa using hbefore _ hm)
      · rcases List.mem_cons.mp hm with rfl | hm
        · rfl
        · have hgt := List.rel_of_pairwise_cons (List.pairwise_append.mp hlt).2.1 hm
          exact absurd hpe (hleast e.1 e.2 ((hmem e.1 e.2).mpr (by simp)) hgt)

end

/-! ## References by place -/

theorem links_eq_flatMap (fields : List (Field Label)) : links fields = fields.flatMap fun f => f.kind.links f.name := by
  induction fields with
  | nil => rfl
  | cons f rest ih => rw [links, ih, List.flatMap_cons]

theorem itemLinks_eq_flatMap (name : String) (items : List (Item Label)) :
    itemLinks name items = items.flatMap fun item => itemLinks name [item] := by
  induction items with
  | nil => rfl
  | cons item rest ih => rw [itemLinks_cons, ih, List.flatMap_cons]

theorem stands_iff {fields : List (Field Label)} {place : List Nat} {l : Link} :
    Stands fields place l ↔ Indexed (fun f => f.kind.Stands f.name) 0 fields place l := by
  constructor
  · intro h
    cases h with
    | @field _ i f place _ hf h => exact ⟨i, f, place, by rw [Nat.zero_add], hf, h⟩
  · intro h
    obtain ⟨i, f, rest, rfl, hf, h⟩ := h
    rw [Nat.zero_add]
    exact .field hf h

theorem kind_stands_items {kind : Kind Label} (h : kind.items ≠ []) {name : String} {place : List Nat} {l : Link} :
    kind.Stands name place l ↔ Indexed (fun item => item.kind.Stands name) 0 kind.items place l := by
  constructor
  · intro hs
    cases hs with
    | @item _ _ j item place _ hj hs => exact ⟨j, item, place, by rw [Nat.zero_add], hj, hs⟩
    | _ => exact absurd rfl h
  · intro hs
    obtain ⟨j, item, rest, rfl, hj, hs⟩ := hs
    rw [Nat.zero_add]
    exact .item hj hs

theorem enumerates_item {name : String} {item : Item Label}
    (ih : ∀ inner, item.kind = .inlineObject inner → Enumerates (Stands inner) (links inner)) :
    Enumerates (item.kind.Stands name) (itemLinks name [item]) := by
  obtain ⟨labelField, kind⟩ := item
  cases kind with
  | object target =>
    refine enumerates_single fun place l => ⟨fun h => ?_, fun h => ?_⟩
    · cases h
      exact ⟨rfl, rfl⟩
    · obtain ⟨rfl, rfl⟩ := h
      exact .object
  | inlineObject fields =>
    rw [itemLinks, itemLinks, List.append_nil]
    refine (ih fields rfl).congr fun place l => ⟨fun h => ?_, .inlineObject⟩
    cases h with
    | inlineObject h => exact h
  | string | boolean | enum options => exact enumerates_nil fun place l h => by cases h

theorem enumerates_items {kind : Kind Label} {name : String} (h : kind.items ≠ [])
    (ih : ∀ inner, kind.Holds inner → Enumerates (Stands inner) (links inner)) :
    Enumerates (kind.Stands name) (itemLinks name kind.items) := by
  rw [itemLinks_eq_flatMap]
  refine Enumerates.congr (enumerates_flatMap (n := 0) ?_) fun _ _ => kind_stands_items h
  exact fun item hm => enumerates_item fun inner hk => ih inner (.item hm hk)

theorem enumerates_kind {kind : Kind Label} {name : String}
    (ih : ∀ inner, kind.Holds inner → Enumerates (Stands inner) (links inner)) :
    Enumerates (kind.Stands name) (kind.links name) := by
  cases kind with
  | object target =>
    refine enumerates_single fun place l => ⟨fun h => ?_, fun h => ?_⟩
    · cases h with
      | object => exact ⟨rfl, rfl⟩
      | item hj => cases hj
    · obtain ⟨rfl, rfl⟩ := h
      exact .object
  | reference target =>
    refine enumerates_single fun place l => ⟨fun h => ?_, fun h => ?_⟩
    · cases h with
      | reference => exact ⟨rfl, rfl⟩
      | item hj => cases hj
    · obtain ⟨rfl, rfl⟩ := h
      exact .reference
  | inlineObject fields =>
    rw [Kind.links]
    refine (ih fields .inlineObject).congr fun place l => ⟨fun h => ?_, .inlineObject⟩
    cases h with
    | inlineObject h => exact h
    | item hj => cases hj
  | list item =>
    rw [links_list]
    exact enumerates_items (by simp [Kind.items]) ih
  | polymorphicList items typeField =>
    rw [Kind.links]
    by_cases h : items = []
    · subst h
      exact enumerates_nil fun place l h => by cases h with | item hj => cases hj
    · exact enumerates_items h ih
  | _ => exact enumerates_nil fun place l h => by cases h with | item hj => cases hj

theorem enumerates_links (fields : List (Field Label)) : Enumerates (Stands fields) (links fields) := by
  induction fields using fields_induction with
  | step fields ih =>
    rw [links_eq_flatMap]
    refine Enumerates.congr (enumerates_flatMap (n := 0) ?_) fun _ _ => stands_iff
    exact fun f hf => enumerates_kind (ih f hf)

end TypedContent

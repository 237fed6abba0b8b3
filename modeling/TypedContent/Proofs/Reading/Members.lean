import Mathlib
import TypedContent.Proofs.Reading.Record

/-!
# The members of a record may be moved and added to

A record that is written as an object is read by the keys of its members. So it reads the same with
its members in another order, with a member more that it has no slot for, and with a value that its
slot reads the same.
-/

namespace TypedContent

namespace Tree

/-! ## Unbroken values -/

/-- The text of the value is that of a value, with keys that are texts, all through. -/
inductive Whole : Tree → Prop
  | null : Whole .null
  | bool {b} : Whole (.bool b)
  | num {n} : Whole (.num n)
  | str {s} : Whole (.str s)
  | arr {items} : (∀ x ∈ items, Whole x) → Whole (.arr items none)
  | obj {members} : (∀ m ∈ members, ∃ key, m.1 = .str key) → (∀ m ∈ members, Whole m.2) → Whole (.obj members none)

/-- The value opens at most so many nested brackets. -/
inductive Nested : Nat → Tree → Prop
  | null {n} : Nested n .null
  | bool {n b} : Nested n (.bool b)
  | num {n x} : Nested n (.num x)
  | str {n s} : Nested n (.str s)
  | broken {n start kept passed} : Nested n (.broken start kept passed)
  | arr {n items stop} : (∀ x ∈ items, Nested n x) → Nested (n + 1) (.arr items stop)
  | obj {n members stop} : (∀ m ∈ members, Nested n m.2) → Nested (n + 1) (.obj members stop)

theorem whole_arr {items : List Tree} {stop : Option Fault} :
    Whole (.arr items stop) ↔ stop = none ∧ ∀ x ∈ items, x.Whole :=
  ⟨fun h => by cases h; exact ⟨rfl, by assumption⟩, fun h => h.1 ▸ .arr h.2⟩

theorem whole_obj {members : List (Tree × Tree)} {stop : Option Fault} :
    Whole (.obj members stop) ↔ stop = none ∧ (∀ m ∈ members, ∃ key, m.1 = .str key) ∧ ∀ m ∈ members, m.2.Whole :=
  ⟨fun h => by cases h; exact ⟨rfl, by assumption, by assumption⟩, fun h => h.1 ▸ .obj h.2.1 h.2.2⟩

theorem not_whole_broken {start : Option Char} {kept : Fault} {passed : Option Fault} :
    ¬Whole (.broken start kept passed) := by
  rintro ⟨⟩

theorem nested_arr {n : Nat} {items : List Tree} {stop : Option Fault} :
    Nested n (.arr items stop) ↔ ∃ m, n = m + 1 ∧ ∀ x ∈ items, x.Nested m :=
  ⟨fun h => by cases h; exact ⟨_, rfl, by assumption⟩, fun ⟨_, hn, h⟩ => hn ▸ .arr h⟩

theorem nested_obj {n : Nat} {members : List (Tree × Tree)} {stop : Option Fault} :
    Nested n (.obj members stop) ↔ ∃ m, n = m + 1 ∧ ∀ x ∈ members, x.2.Nested m :=
  ⟨fun h => by cases h; exact ⟨_, rfl, by assumption⟩, fun ⟨_, hn, h⟩ => hn ▸ .obj h⟩

theorem Nested.mono {n m : Nat} {t : Tree} (h : Nested n t) (hm : n ≤ m) : Nested m t := by
  induction h generalizing m with
  | arr _ ih =>
    obtain ⟨m, rfl⟩ := Nat.exists_eq_add_of_le' (Nat.le_of_add_left_le hm)
    exact .arr fun x hx => ih x hx (Nat.le_of_add_le_add_right hm)
  | obj _ ih =>
    obtain ⟨m, rfl⟩ := Nat.exists_eq_add_of_le' (Nat.le_of_add_left_le hm)
    exact .obj fun x hx => ih x hx (Nat.le_of_add_le_add_right hm)
  | _ => constructor

theorem Nested.of_item {n : Nat} {before after : List Tree} {t : Tree} {stop : Option Fault}
    (h : Nested n (.arr (before ++ t :: after) stop)) : t.Nested (n - 1) := by
  obtain ⟨m, rfl, hall⟩ := nested_arr.mp h
  exact hall t (by simp)

theorem Nested.of_member {n : Nat} {before after : List (Tree × Tree)} {key t : Tree} {stop : Option Fault}
    (h : Nested n (.obj (before ++ (key, t) :: after) stop)) : t.Nested (n - 1) := by
  obtain ⟨m, rfl, hall⟩ := nested_obj.mp h
  exact hall (key, t) (by simp)

theorem passItems_eq_ok {items : List Tree} : passItems items = .ok () ↔ ∀ x ∈ items, x.pass = .ok () := by
  induction items with
  | nil => simp [passItems]
  | cons item rest ih => rw [passItems, check_bind_eq_ok, ih, List.forall_mem_cons]

theorem passMembers_eq_ok {members : List (Tree × Tree)} :
    passMembers members = .ok () ↔ ∀ m ∈ members, m.1.passKey = .ok () ∧ m.2.pass = .ok () := by
  induction members with
  | nil => simp [passMembers]
  | cons m rest ih => rw [passMembers, check_bind_eq_ok, check_bind_eq_ok, ih, List.forall_mem_cons, and_assoc]

theorem Whole.pass {t : Tree} (h : t.Whole) : t.pass = .ok () := by
  induction h with
  | arr _ ih =>
    rw [Tree.pass, check_bind_eq_ok]
    exact ⟨passItems_eq_ok.mpr ih, rfl⟩
  | @obj members hkeys _ ih =>
    rw [Tree.pass, check_bind_eq_ok]
    refine ⟨passMembers_eq_ok.mpr fun m hm => ⟨?_, ih m hm⟩, rfl⟩
    obtain ⟨key, hkey⟩ := hkeys m hm
    rw [hkey]
    rfl
  | _ => rfl

theorem forall₂_exists {α β : Type} (R : α → β → Prop) (as : List α) :
    (∃ bs, List.Forall₂ R as bs) ↔ ∀ a ∈ as, ∃ b, R a b := by
  induction as with
  | nil => simp
  | cons a rest ih =>
    rw [List.forall_mem_cons, ← ih]
    simp only [List.forall₂_cons_left_iff]
    constructor
    · rintro ⟨-, b, bs, hb, hbs, -⟩
      exact ⟨⟨b, hb⟩, bs, hbs⟩
    · rintro ⟨⟨b, hb⟩, bs, hbs⟩
      exact ⟨b :: bs, b, bs, hb, hbs, rfl⟩

/-- What can be kept is what is whole and nests no deeper than allowed. -/
theorem keep_ok_iff {levels : Nat} {t : Tree} : (∃ v, t.keep levels = .ok v) ↔ t.Whole ∧ t.Nested levels := by
  induction levels generalizing t with
  | zero =>
    cases t with
    | arr items stop => simp [keep, nested_arr]
    | obj members stop => simp [keep, nested_obj]
    | broken start kept passed => simp [keep, not_whole_broken]
    | _ => exact ⟨fun _ => ⟨by constructor, by constructor⟩, fun _ => ⟨_, rfl⟩⟩
  | succ levels ih =>
    cases t with
    | arr items stop =>
      have hitems := forall₂_exists (fun (t : Tree) v => t.keep levels = .ok v) items
      simp only [ih] at hitems
      simp only [keep_arr, whole_arr, nested_arr]
      grind
    | obj members stop =>
      have hmembers := forall₂_exists
        (fun (t : Tree × Tree) (m : String × Json) => t.1 = .str m.1 ∧ keep levels t.2 = .ok m.2) members
      simp only [Prod.exists, exists_and_left, exists_and_right, ih] at hmembers
      simp only [keep_obj, whole_obj, nested_obj]
      grind
    | broken start kept passed => simp [keep, not_whole_broken]
    | _ => exact ⟨fun _ => ⟨by constructor, by constructor⟩, fun _ => ⟨_, rfl⟩⟩

end Tree

/-! ## Records -/

namespace Shape

variable {σ : Type} {shape : Shape σ}

/-- A member that the record has no slot for may stand anywhere. -/
theorem Lawful.readObject_insert (hs : shape.Lawful) {before after : List (Tree × Tree)} {key : String} {v : Tree}
    (hkey : key ∉ shape.slots.map (·.key)) (hv : v.pass = .ok ()) {result : σ}
    (h : shape.readObject (before ++ after) none = .ok result) :
    shape.readObject (before ++ (.str key, v) :: after) none = .ok result := by
  have hnone : shape.slots.find? (·.key = key) = none := by
    rw [List.find?_eq_none]
    intro slot hm
    simpa using fun e => hkey (List.mem_map.mpr ⟨slot, hm, e⟩)
  refine hs.readObject_perm List.perm_middle.symm (readObject_eq_ok.mpr ?_)
  obtain ⟨-, hfold, hnodup, hrequired⟩ := readObject_eq_ok.mp h
  have hknown : shape.knownKeys ((.str key, v) :: (before ++ after)) = shape.knownKeys (before ++ after) := by
    rw [knownKeys_cons]
    simp [knownKey?, hnone]
  rw [hknown]
  refine ⟨rfl, ?_, hnodup, hrequired⟩
  rw [List.foldlM_cons, bind_eq_ok]
  exact ⟨shape.empty, fillOne_eq_ok.mpr ⟨key, rfl, .inl ⟨hnone, hv, rfl⟩⟩, hfold⟩

/-- The slots of the key read the second value as they read the first. -/
def ReadsAs (shape : Shape σ) (key : String) (v v' : Tree) : Prop :=
  ∀ slot ∈ shape.slots, slot.key = key → ∀ value result, slot.fill value v = .ok result → slot.fill value v' = .ok result

theorem readObject_member {before after : List (Tree × Tree)} {key : String} {v v' : Tree}
    (hkey : key ∈ shape.slots.map (·.key)) (hread : shape.ReadsAs key v v') {result : σ}
    (h : shape.readObject (before ++ (.str key, v) :: after) none = .ok result) :
    shape.readObject (before ++ (.str key, v') :: after) none = .ok result := by
  obtain ⟨-, hfold, hnodup, hrequired⟩ := readObject_eq_ok.mp h
  have hknown : shape.knownKeys (before ++ (.str key, v') :: after) = shape.knownKeys (before ++ (.str key, v) :: after) := by
    rw [knownKeys, knownKeys, List.filterMap_append, List.filterMap_append]
    rfl
  refine readObject_eq_ok.mpr ⟨rfl, ?_, hknown ▸ hnodup, hknown ▸ hrequired⟩
  simp only [List.foldlM_append, List.foldlM_cons, bind_eq_ok] at hfold ⊢
  obtain ⟨value, hbefore, next, hone, hafter⟩ := hfold
  refine ⟨value, hbefore, next, ?_, hafter⟩
  obtain ⟨_, ⟨⟩, ⟨hnone, -, -⟩ | ⟨slot, hslot, hfill⟩⟩ := fillOne_eq_ok.mp hone
  · obtain ⟨slot, hm, hk⟩ := List.mem_map.mp hkey
    exact absurd (decide_eq_true hk) (List.find?_eq_none.mp hnone slot hm)
  · refine fillOne_eq_ok.mpr ⟨key, rfl, .inr ⟨slot, hslot, ?_⟩⟩
    exact hread slot (List.mem_of_find?_eq_some hslot) (by simpa using List.find?_some hslot) value next hfill

theorem readArray_element {slots : List (Slot σ)} {stop : Option Fault} {before after : List Tree} {v v' : Tree}
    {key : String}
    (hslots : slots ⊆ shape.slots) (hkey : (slots.map (·.key))[before.length]? = some key) (hread : shape.ReadsAs key v v')
    {count : Nat} {value result : σ} (h : shape.readArray stop slots count value (before ++ v :: after) = .ok result) :
    shape.readArray stop slots count value (before ++ v' :: after) = .ok result := by
  induction before generalizing slots count value with
  | nil =>
    cases slots with
    | nil => cases hkey
    | cons slot slots =>
      simp only [List.nil_append, readArray, bind_eq_ok] at h ⊢
      obtain ⟨next, hfill, hrest⟩ := h
      exact ⟨next, hread slot (hslots List.mem_cons_self) (by simpa using hkey) value next hfill, hrest⟩
  | cons item before ih =>
    cases slots with
    | nil => cases hkey
    | cons slot slots =>
      simp only [List.cons_append, readArray, bind_eq_ok] at h ⊢
      obtain ⟨next, hfill, hrest⟩ := h
      exact ⟨next, hfill, ih (List.cons_subset.mp hslots).2 (by simpa using hkey) hrest⟩

end Shape

end TypedContent

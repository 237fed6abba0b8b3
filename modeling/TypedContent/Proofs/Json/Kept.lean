import Mathlib
import TypedContent.Proofs.Except
import TypedContent.Proofs.Json.Text
import TypedContent.Reading.Shape

/-!
# Values that are kept

What a reader keeps of a tree is the value that the tree denotes (`Tree.Denotes`): an object
has each key once, at its first place and with its last value. It nests no deeper than allowed.
The other way round, the tree of such a value is kept as that value, so what has been printed
is read back.
-/

namespace TypedContent

namespace Json

/-! ## Members that are put one after the other -/

theorem keys_put (k : String) (v : Json) (done : List (String × Json)) :
    (put k v done).map Prod.fst = if k ∈ done.map Prod.fst then done.map Prod.fst else done.map Prod.fst ++ [k] := by
  induction done with
  | nil => rfl
  | cons m rest ih =>
    obtain ⟨k', v'⟩ := m
    by_cases h : k' = k
    · simp [put, h]
    · rw [put, if_neg h, List.map_cons, ih]
      simp only [List.map_cons, List.mem_cons, Ne.symm h, false_or]
      split <;> rfl

theorem mem_put {k : String} {v : Json} {done : List (String × Json)} {m : String × Json} (h : m ∈ put k v done) :
    m = (k, v) ∨ m ∈ done := by
  induction done with
  | nil => exact Or.inl (List.mem_singleton.mp h)
  | cons m' rest ih =>
    obtain ⟨k', v'⟩ := m'
    by_cases hk : k' = k
    · rw [put, if_pos hk, hk] at h
      exact (List.mem_cons.mp h).imp_right (List.mem_cons_of_mem _)
    · rw [put, if_neg hk] at h
      rcases List.mem_cons.mp h with rfl | h
      · exact Or.inr List.mem_cons_self
      · exact (ih h).imp_right (List.mem_cons_of_mem _)

theorem put_new {k : String} {done : List (String × Json)} (h : k ∉ done.map Prod.fst) (v : Json) :
    put k v done = done ++ [(k, v)] := by
  induction done with
  | nil => rfl
  | cons m rest ih =>
    obtain ⟨hk, hrest⟩ := not_or.mp (List.mem_cons.not.mp h)
    rw [put, if_neg (Ne.symm hk), ih hrest, List.cons_append]

/-- The members as they are written, each put where its key has its place. -/
def collapse (written : List (String × Json)) : List (String × Json) :=
  written.foldl (fun done m => put m.1 m.2 done) []

theorem collapse_snoc (written : List (String × Json)) (m : String × Json) :
    collapse (written ++ [m]) = put m.1 m.2 (collapse written) := by
  rw [collapse, List.foldl_append]
  rfl

theorem keys_collapse (written : List (String × Json)) :
    (collapse written).map Prod.fst = (written.map Prod.fst).eraseDups := by
  induction written using List.reverseRecOn with
  | nil => rfl
  | append_singleton written m ih =>
    rw [collapse_snoc, keys_put, ih, List.map_append, List.eraseDups_append]
    simp only [List.mem_eraseDups, List.map_cons, List.map_nil, List.removeAll, List.filter_cons, List.filter_nil,
      List.elem_eq_mem, Bool.not_eq_true', decide_eq_false_iff_not]
    by_cases h : m.1 ∈ written.map Prod.fst
    · simp [h]
    · simp [h, List.eraseDups_cons]

theorem nodup_collapse (written : List (String × Json)) : ((collapse written).map Prod.fst).Nodup := by
  induction written using List.reverseRecOn with
  | nil => exact List.nodup_nil
  | append_singleton written m ih =>
    rw [collapse_snoc, keys_put]
    split
    · exact ih
    next h => exact List.nodup_append_comm.mp (List.nodup_cons.mpr ⟨h, ih⟩)

theorem lookup_collapse (written : List (String × Json)) (k : String) :
    lookup k (collapse written) = lookup k written.reverse := by
  induction written using List.reverseRecOn with
  | nil => rfl
  | append_singleton written m ih =>
    rw [collapse_snoc, lookup_put, ih, List.reverse_append]
    simp [lookup, eq_comm]

theorem mem_collapse {written : List (String × Json)} {m : String × Json} (h : m ∈ collapse written) : m ∈ written := by
  induction written using List.reverseRecOn with
  | nil => exact h
  | append_singleton written m' ih =>
    rw [collapse_snoc] at h
    rcases mem_put h with rfl | h
    · exact List.mem_append_right _ List.mem_cons_self
    · exact List.mem_append_left _ (ih h)

theorem collapse_nodup {members : List (String × Json)} (h : (members.map Prod.fst).Nodup) : collapse members = members := by
  induction members using List.reverseRecOn with
  | nil => rfl
  | append_singleton members m ih =>
    rw [List.map_append, List.nodup_append] at h
    obtain ⟨hmembers, -, hnew⟩ := h
    rw [collapse_snoc, ih hmembers]
    exact put_new (fun hm => hnew _ hm _ List.mem_cons_self rfl) m.2

/-! ## What can be kept -/

/-- The value opens at most so many nested brackets. -/
inductive Nested : Nat → Json → Prop
  | null {n} : Nested n .null
  | bool {n b} : Nested n (.bool b)
  | num {n x} : Nested n (.num x)
  | str {n s} : Nested n (.str s)
  | arr {n items} : (∀ x ∈ items, Nested n x) → Nested (n + 1) (.arr items)
  | obj {n members} : (∀ m ∈ members, Nested n m.2) → Nested (n + 1) (.obj members)

/-- No object in the value has a key twice. -/
inductive Keyed : Json → Prop
  | null : Keyed .null
  | bool {b} : Keyed (.bool b)
  | num {x} : Keyed (.num x)
  | str {s} : Keyed (.str s)
  | arr {items} : (∀ x ∈ items, Keyed x) → Keyed (.arr items)
  | obj {members} : (members.map Prod.fst).Nodup → (∀ m ∈ members, Keyed m.2) → Keyed (.obj members)

theorem keyed_arr {items : List Json} : Keyed (.arr items) ↔ ∀ x ∈ items, Keyed x :=
  ⟨fun h => by cases h; assumption, .arr⟩

theorem keyed_obj {members : List (String × Json)} :
    Keyed (.obj members) ↔ (members.map Prod.fst).Nodup ∧ ∀ m ∈ members, Keyed m.2 :=
  ⟨fun h => by cases h; exact ⟨by assumption, by assumption⟩, fun h => .obj h.1 h.2⟩

theorem Nested.mono {n m : Nat} {v : Json} (h : Nested n v) (hm : n ≤ m) : Nested m v := by
  induction h generalizing m with
  | null => exact .null
  | bool => exact .bool
  | num => exact .num
  | str => exact .str
  | arr _ ih =>
    obtain ⟨m, rfl⟩ := Nat.exists_eq_add_of_le' (Nat.le_of_add_left_le hm)
    exact .arr fun x hx => ih x hx (Nat.le_of_add_le_add_right hm)
  | obj _ ih =>
    obtain ⟨m, rfl⟩ := Nat.exists_eq_add_of_le' (Nat.le_of_add_left_le hm)
    exact .obj fun x hx => ih x hx (Nat.le_of_add_le_add_right hm)

end Json

namespace Tree

open Json

/-! ## Keeping one after the other -/

theorem key_eq_ok {t : Tree} {k : String} : t.key = .ok k ↔ t = .str k := by
  cases t with
  | str s => simp [key]
  | broken start kept passed =>
    unfold key
    split <;> simp_all
  | _ => simp [key]

theorem unlessStop_eq_ok {α : Type} {stop : Option Fault} {a b : α} : unlessStop stop a = .ok b ↔ stop = none ∧ a = b := by
  cases stop <;> simp [unlessStop]

theorem keepItems_eq_ok {levels : Nat} {items : List Tree} {values : List Json} :
    keepItems levels items = .ok values ↔ List.Forall₂ (fun t v => keep levels t = .ok v) items values := by
  induction items generalizing values with
  | nil => simp [keepItems, eq_comm]
  | cons item rest ih =>
    simp only [keepItems, bind_eq_ok, pure_eq_ok, ih, List.forall₂_cons_left_iff]
    grind

theorem keepMembers_eq_ok {levels : Nat} {members : List (Tree × Tree)} {done values : List (String × Json)} :
    keepMembers levels members done = .ok values ↔
      ∃ written : List (String × Json),
        List.Forall₂ (fun t m => t.1 = .str m.1 ∧ keep levels t.2 = .ok m.2) members written ∧
        written.foldl (fun done m => put m.1 m.2 done) done = values := by
  induction members generalizing done with
  | nil => simp [keepMembers]
  | cons member rest ih =>
    obtain ⟨key, value⟩ := member
    simp only [keepMembers, bind_eq_ok, key_eq_ok, ih, List.forall₂_cons_left_iff]
    constructor
    · intro h
      obtain ⟨k, hk, v, hv, written, hrest, hvalues⟩ := h
      exact ⟨(k, v) :: written, ⟨(k, v), written, ⟨hk, hv⟩, hrest, rfl⟩, hvalues⟩
    · intro h
      obtain ⟨_, ⟨m, written, ⟨hk, hv⟩, hrest, rfl⟩, hvalues⟩ := h
      exact ⟨m.1, hk, m.2, hv, written, hrest, hvalues⟩

theorem keep_arr {levels : Nat} {items : List Tree} {stop : Option Fault} {v : Json} :
    keep (levels + 1) (.arr items stop) = .ok v ↔
      ∃ values, List.Forall₂ (fun t v => keep levels t = .ok v) items values ∧ stop = none ∧ .arr values = v := by
  simp only [keep, bind_eq_ok, keepItems_eq_ok, unlessStop_eq_ok]

theorem keep_obj {levels : Nat} {members : List (Tree × Tree)} {stop : Option Fault} {v : Json} :
    keep (levels + 1) (.obj members stop) = .ok v ↔
      ∃ written : List (String × Json),
        List.Forall₂ (fun t m => t.1 = .str m.1 ∧ keep levels t.2 = .ok m.2) members written ∧
        stop = none ∧ .obj (collapse written) = v := by
  simp only [keep, bind_eq_ok, keepMembers_eq_ok, unlessStop_eq_ok]
  constructor
  · intro h
    obtain ⟨_, ⟨written, hw, rfl⟩, hstop, hv⟩ := h
    exact ⟨written, hw, hstop, hv⟩
  · intro h
    obtain ⟨written, hw, hstop, hv⟩ := h
    exact ⟨_, ⟨written, hw, rfl⟩, hstop, hv⟩

/-! ## What is kept -/

/-- The value that an unbroken tree writes. The keys of an object are those that are written, in
the order in which each comes first; each has the value that is written last. -/
inductive Denotes : Tree → Json → Prop
  | null : Denotes .null .null
  | bool {b} : Denotes (.bool b) (.bool b)
  | num {n} : Denotes (.num n) (.num n)
  | str {s} : Denotes (.str s) (.str s)
  | arr {items values} : List.Forall₂ Denotes items values → Denotes (.arr items none) (.arr values)
  | obj {members values} (written : List (String × Json)) : members.map Prod.fst = written.map (fun m => .str m.1) →
    List.Forall₂ Denotes (members.map Prod.snd) (written.map Prod.snd) →
    values.map Prod.fst = (written.map Prod.fst).eraseDups → (∀ k, lookup k values = lookup k written.reverse) →
    Denotes (.obj members none) (.obj values)

theorem keep_denotes {levels : Nat} {t : Tree} {v : Json} (h : keep levels t = .ok v) : t.Denotes v := by
  -- on the levels: what is inside a container is kept with one level less
  induction levels generalizing t v with
  | zero => cases t <;> cases h <;> constructor
  | succ levels ih =>
    cases t with
    | arr items stop =>
      obtain ⟨values, hvalues, rfl, rfl⟩ := keep_arr.mp h
      exact .arr (hvalues.imp fun _ _ => ih)
    | obj members stop =>
      obtain ⟨written, hw, rfl, rfl⟩ := keep_obj.mp h
      refine .obj written ?_ ?_ (keys_collapse written) (lookup_collapse written)
      · exact List.forall₂_eq_eq_eq ▸ List.forall₂_map_left_iff.mpr (List.forall₂_map_right_iff.mpr (hw.imp fun _ _ h => h.1))
      · exact List.forall₂_map_left_iff.mpr (List.forall₂_map_right_iff.mpr (hw.imp fun _ _ h => ih h.2))
    | _ => cases h <;> constructor

/-- What is kept nests no deeper than allowed, and has no key twice. -/
theorem keep_nested {levels : Nat} {t : Tree} {v : Json} (h : keep levels t = .ok v) : v.Nested levels ∧ v.Keyed := by
  induction levels generalizing t v with
  | zero => cases t <;> cases h <;> constructor <;> constructor
  | succ levels ih =>
    cases t with
    | arr items stop =>
      obtain ⟨values, hvalues, rfl, rfl⟩ := keep_arr.mp h
      have hall : ∀ x ∈ values, x.Nested levels ∧ x.Keyed :=
        ((List.forall₂_and_left _ _).mp (hvalues.flip.imp fun _ _ h => ⟨ih h, h⟩)).1
      exact ⟨.arr fun x hx => (hall x hx).1, .arr fun x hx => (hall x hx).2⟩
    | obj members stop =>
      obtain ⟨written, hw, rfl, rfl⟩ := keep_obj.mp h
      have hwritten : ∀ m ∈ written, m.2.Nested levels ∧ m.2.Keyed :=
        ((List.forall₂_and_left _ _).mp (hw.flip.imp fun _ _ h => ⟨ih h.2, h⟩)).1
      have hall : ∀ m ∈ collapse written, m.2.Nested levels ∧ m.2.Keyed := fun m hm => hwritten m (mem_collapse hm)
      exact ⟨.obj fun m hm => (hall m hm).1, .obj (nodup_collapse written) fun m hm => (hall m hm).2⟩
    | _ => cases h <;> constructor <;> constructor

/-- The tree of a value that nests no deeper than allowed is kept; if no key comes twice, as the
value itself. -/
theorem keep_tree {levels : Nat} {v : Json} (h : v.Nested levels) :
    ∃ w, keep levels v.tree = .ok w ∧ (v.Keyed → w = v) := by
  induction h with
  | null => exact ⟨_, rfl, fun _ => rfl⟩
  | bool => exact ⟨_, rfl, fun _ => rfl⟩
  | num => exact ⟨_, rfl, fun _ => rfl⟩
  | str => exact ⟨_, rfl, fun _ => rfl⟩
  | @arr n items _ ih =>
    choose! kept hkept hsame using ih
    have hall : List.Forall₂ (fun t v => keep n t = .ok v) (items.map tree) (items.map kept) :=
      List.forall₂_map_left_iff.mpr (List.forall₂_map_right_iff.mpr (List.forall₂_same.mpr hkept))
    refine ⟨.arr (items.map kept), ?_, fun hkeyed => ?_⟩
    · rw [tree, itemTrees_eq_map]
      exact keep_arr.mpr ⟨_, hall, rfl, rfl⟩
    · rw [List.map_congr_left fun x hx => hsame x hx (keyed_arr.mp hkeyed x hx), List.map_id']
  | @obj n members _ ih =>
    choose! kept hkept hsame using ih
    have hall : List.Forall₂ (fun t m => t.1 = .str m.1 ∧ keep n t.2 = .ok m.2)
        (members.map fun m => ((.str m.1, m.2.tree) : Tree × Tree)) (members.map fun m => (m.1, kept m)) :=
      List.forall₂_map_left_iff.mpr
        (List.forall₂_map_right_iff.mpr (List.forall₂_same.mpr fun m hm => ⟨rfl, hkept m hm⟩))
    refine ⟨.obj (collapse (members.map fun m => (m.1, kept m))), ?_, fun hkeyed => ?_⟩
    · rw [tree, memberTrees_eq_map]
      exact keep_obj.mpr ⟨_, hall, rfl, rfl⟩
    · obtain ⟨hnodup, hmembers⟩ := keyed_obj.mp hkeyed
      have hwritten : (members.map fun m => (m.1, kept m)) = members := by
        refine (List.map_congr_left fun m hm => ?_).trans (List.map_id' members)
        rw [hsame m hm (hmembers m hm)]
      rw [hwritten, collapse_nodup hnodup]

end Tree

/-! ## Whole texts -/

theorem orFault_eq_ok {α : Type} {x : Except Fault α} {a : α} : orFault x = .ok a ↔ x = .ok a := by
  cases x <;> simp [orFault]

theorem readText_eq_ok {α : Type} {read : Reader α} {text : String} {a : α} :
    readText read text = .ok a ↔ read (Tree.ofText text.toList).1 = .ok a ∧
      ∃ rest, (Tree.ofText text.toList).2 = some rest ∧ Json.skipBlanks rest = [] := by
  unfold readText
  generalize Tree.ofText text.toList = parsed
  obtain ⟨tree, after⟩ := parsed
  simp only [bind_eq_ok]
  cases after with
  | none => simp [malformed]
  | some rest =>
    cases hblank : Json.skipBlanks rest with
    | nil => simp [pure_eq_ok, hblank]
    | cons c rest => simp [malformed, hblank]

/-- A reader sees of a text the tree that it writes. -/
theorem readText_writes {α : Type} {read : Reader α} {text : String} {a : α} :
    readText read text = .ok a ↔ ∃ t, Tree.Writes t text.toList ∧ read t = .ok a := by
  rw [readText_eq_ok]
  constructor
  · rintro ⟨hread, rest, hrest, hblank⟩
    exact ⟨_, Tree.writes_iff.mpr ⟨rest, Prod.ext rfl hrest, hblank⟩, hread⟩
  · rintro ⟨t, ht, hread⟩
    obtain ⟨rest, htree, hblank⟩ := Tree.writes_iff.mp ht
    rw [htree]
    exact ⟨hread, rest, rfl, hblank⟩

theorem readText_of_writes {α : Type} {t : Tree} {text : String} (h : t.Writes text.toList) (read : Reader α) :
    readText read text = read t := by
  obtain ⟨rest, htree, hrest⟩ := Tree.writes_iff.mp h
  rw [readText, htree]
  dsimp only
  rw [hrest]
  cases read t <;> rfl

/-- A reader sees of a printed text the tree of the value. -/
theorem readText_print {α : Type} (read : Reader α) {v : Json} (h : v.Lossless) (l : Json.Layout) {a : α}
    (hread : read v.tree = .ok a) : readText read (String.ofList (Json.print l 0 v)) = .ok a :=
  (readText_of_writes (Json.writes_text h l) read).trans hread

/-- What is printed, in either layout, is read back as it was. -/
theorem Json.ofText_print {v : Json} (hl : v.Lossless) (hn : v.Nested nestingLimit) (hk : v.Keyed) (l : Layout) :
    Json.ofText (String.ofList (print l 0 v)) = .ok v := by
  obtain ⟨w, hw, hsame⟩ := Tree.keep_tree hn
  rw [hsame hk] at hw
  exact readText_print _ hl l (orFault_eq_ok.mpr hw)

end TypedContent

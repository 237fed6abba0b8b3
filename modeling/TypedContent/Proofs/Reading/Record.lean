import Mathlib
import TypedContent.Proofs.Json.Kept
import TypedContent.Proofs.Reading.Unbuffered

/-!
# Records

The object form of a record is read member by member, and the keys are checked on the way.
Apart from those checks (no known key comes twice, no required one is missing) it is a fold
that fills one slot after the other: `readObject_eq_ok`. If the slots only put what they read
into different places, the members may come in any order: `Shape.Lawful.read`.
-/

namespace TypedContent

/-! ## Sequences and definitions -/

theorem readItems_eq_ok {α : Type} {read : Reader α} {items : List Tree} {values : List α} :
    readItems read items = .ok values ↔ List.Forall₂ (fun t a => read t = .ok a) items values := by
  induction items generalizing values with
  | nil => simp [readItems, eq_comm]
  | cons item rest ih =>
    simp only [readItems, bind_eq_ok, pure_eq_ok, ih, List.forall₂_cons_left_iff]
    grind

theorem readSequence_eq_ok {α : Type} {levels : Nat} {read : Reader α} {t : Tree} {values : List α} :
    readSequence levels read t = .ok values ↔
      levels ≠ 0 ∧ ∃ items, t = .arr items none ∧ List.Forall₂ (fun t a => read t = .ok a) items values := by
  cases t with
  | arr items stop =>
    by_cases h : levels = 0
    · simp [readSequence, h, malformed]
    · simp only [readSequence, h, if_false, bind_eq_ok, readItems_eq_ok, orFault_eq_ok, Tree.unlessStop_eq_ok]
      grind
  | _ => simp [readSequence]

theorem readEntries_eq_ok {α : Type} {read : Reader α} {members : List (Tree × Tree)} {entries : List (String × α)} :
    readEntries read members = .ok entries ↔
      List.Forall₂ (fun m e => m.1 = .str e.1 ∧ read m.2 = .ok e.2) members entries := by
  induction members generalizing entries with
  | nil => simp [readEntries, eq_comm]
  | cons member rest ih =>
    obtain ⟨key, value⟩ := member
    simp only [readEntries, bind_eq_ok, pure_eq_ok, orFault_eq_ok, Tree.key_eq_ok, ih, List.forall₂_cons_left_iff]
    constructor
    · intro h
      obtain ⟨k, hk, a, ha, entries, hrest, rfl⟩ := h
      exact ⟨(k, a), entries, ⟨hk, ha⟩, hrest, rfl⟩
    · intro h
      obtain ⟨e, entries, ⟨hk, ha⟩, hrest, rfl⟩ := h
      exact ⟨e.1, hk, e.2, ha, entries, hrest, rfl⟩

theorem readDefinitions_eq_ok {α : Type} {levels : Nat} {read : Reader α} {t : Tree} {entries : List (String × α)} :
    readDefinitions levels read t = .ok entries ↔ levels ≠ 0 ∧ ∃ members, t = .obj members none ∧
      List.Forall₂ (fun m e => m.1 = .str e.1 ∧ read m.2 = .ok e.2) members entries := by
  cases t with
  | obj members stop =>
    by_cases h : levels = 0
    · simp [readDefinitions, h, malformed]
    · simp only [readDefinitions, h, if_false, bind_eq_ok, readEntries_eq_ok, orFault_eq_ok, Tree.unlessStop_eq_ok]
      grind
  | _ => simp [readDefinitions]

/-- Definitions that are written one after the other, each under its name. -/
theorem readDefinitions_write {α β : Type} {levels : Nat} (hlevels : levels ≠ 0) {read : Reader α} {write : β → String × Json}
    {result : β → α} {definitions : List β} (h : ∀ d ∈ definitions, read (write d).2.tree = .ok (result d)) :
    readDefinitions levels read (Json.obj (definitions.map write)).tree =
      .ok (definitions.map fun d => ((write d).1, result d)) := by
  have hentries : readEntries read (Json.memberTrees (definitions.map write)) =
      .ok (definitions.map fun d => ((write d).1, result d)) := by
    rw [readEntries_eq_ok, Json.memberTrees_eq_map, List.map_map, List.forall₂_map_left_iff, List.forall₂_map_right_iff,
      List.forall₂_same]
    exact fun d hd => ⟨rfl, h d hd⟩
  rw [Json.tree, readDefinitions, if_neg hlevels, hentries]
  rfl

/-! ## Plain values -/

section
variable {levels : Nat}

theorem readString_tree (s : String) : readString (Json.str s).tree = .ok s := rfl

theorem readString_optional (s : Option String) : ∀ x ∈ s, Json.str x ≠ .null ∧ readString (Json.str x).tree = .ok x :=
  fun _ _ => ⟨by simp, rfl⟩

theorem readBool_optional (b : Option Bool) : ∀ x ∈ b, Json.bool x ≠ .null ∧ readBool (Json.bool x).tree = .ok x :=
  fun _ _ => ⟨by simp, rfl⟩

theorem readJson_optional {v : Option Json} (h : ∀ x ∈ v, x ≠ .null ∧ x.Keyed ∧ x.Nested levels) :
    ∀ x ∈ v, x ≠ .null ∧ readJson levels x.tree = .ok x := by
  intro x hx
  obtain ⟨hnull, hkeyed, hnested⟩ := h x hx
  obtain ⟨kept, hkept, hsame⟩ := Tree.keep_tree hnested
  rw [hsame hkeyed] at hkept
  exact ⟨hnull, orFault_eq_ok.mpr hkept⟩

theorem readStrings_tree (hlevels : levels ≠ 0) (texts : List String) :
    readSequence levels readString (Json.strings texts).tree = .ok texts := by
  rw [readSequence_eq_ok]
  refine ⟨hlevels, _, rfl, ?_⟩
  rw [Json.itemTrees_eq_map, List.map_map, List.forall₂_map_left_iff, List.forall₂_same]
  exact fun _ _ => rfl

end

/-! ## Records -/

namespace Shape

variable {σ : Type} (shape : Shape σ)

/-- Fills the slot of one member, whatever keys have been read. -/
def fillOne (value : σ) (member : Tree × Tree) : Except ReadError σ := do
  let key ← orFault member.1.key
  match shape.slots.find? (·.key = key) with
  | none =>
    orFault member.2.pass
    return value
  | some slot => slot.fill value member.2

/-- The key of a member, if the record has a slot for it. -/
def knownKey? (member : Tree × Tree) : Option String :=
  match member.1 with
  | .str key => (shape.slots.find? (·.key = key)).map (·.key)
  | _ => none

def knownKeys (members : List (Tree × Tree)) : List String := members.filterMap shape.knownKey?

variable {shape}

theorem fillMember_unknown {key : String} (h : shape.slots.find? (·.key = key) = none) (seen : List String) (value : σ)
    (t : Tree) :
    shape.fillMember (seen, value) (.str key, t) = orFault t.pass >>= fun _ => pure (seen, value) := by
  simp only [fillMember, Tree.key, orFault, bind, Except.bind, h]

theorem fillMember_known {key : String} {slot : Slot σ} (h : shape.slots.find? (·.key = key) = some slot)
    (seen : List String) (value : σ) (t : Tree) : shape.fillMember (seen, value) (.str key, t) =
      if key ∈ seen then .error (.shape (.duplicateKey key))
      else slot.fill value t >>= fun value => pure (key :: seen, value) := by
  simp only [fillMember, Tree.key, orFault, bind, Except.bind, h]

theorem fillMember_eq_ok {seen seen' : List String} {value result : σ} {member : Tree × Tree} :
    shape.fillMember (seen, value) member = .ok (seen', result) ↔
      shape.fillOne value member = .ok result ∧ (∀ key ∈ shape.knownKey? member, key ∉ seen) ∧
        seen' = (shape.knownKey? member).toList ++ seen := by
  obtain ⟨t, v⟩ := member
  unfold fillMember fillOne knownKey?
  simp only [bind_eq_ok, orFault_eq_ok, Tree.key_eq_ok]
  by_cases ht : ∃ key, t = .str key
  · obtain ⟨key, rfl⟩ := ht
    simp only [Tree.str.injEq, exists_eq_left']
    cases hfind : shape.slots.find? (·.key = key) with
    | none =>
      simp only [bind_eq_ok, orFault_eq_ok, pure_eq_ok, Prod.mk.injEq, Option.map_none, Option.mem_def, reduceCtorEq,
        false_implies, implies_true, true_and, Option.toList_none, List.nil_append]
      grind
    | some slot =>
      have hkey : slot.key = key := by simpa using List.find?_some hfind
      simp only [Option.map_some, hkey, Option.mem_def, Option.some.injEq, forall_eq', Option.toList_some]
      by_cases hseen : key ∈ seen
      · simp [hseen]
      · simp only [hseen, if_false, bind_eq_ok, pure_eq_ok, Prod.mk.injEq, not_false_eq_true, true_and]
        grind
  · have hnone : ∀ key, t ≠ .str key := fun key h => ht ⟨key, h⟩
    simp [hnone]

theorem knownKeys_cons (member : Tree × Tree) (rest : List (Tree × Tree)) :
    shape.knownKeys (member :: rest) = (shape.knownKey? member).toList ++ shape.knownKeys rest := by
  unfold knownKeys
  cases h : shape.knownKey? member with
  | none => exact List.filterMap_cons_none h
  | some key => exact List.filterMap_cons_some h

theorem foldlM_fillMember {members : List (Tree × Tree)} {seen seen' : List String} {value result : σ} :
    members.foldlM shape.fillMember (seen, value) = .ok (seen', result) ↔
      members.foldlM shape.fillOne value = .ok result ∧ (shape.knownKeys members).Nodup ∧
        (∀ key ∈ shape.knownKeys members, key ∉ seen) ∧ seen' = (shape.knownKeys members).reverse ++ seen := by
  induction members generalizing seen value with
  | nil =>
    simp only [List.foldlM_nil, pure_eq_ok, Prod.mk.injEq, knownKeys, List.filterMap_nil, List.nodup_nil,
      List.not_mem_nil, false_implies, implies_true, true_and, List.reverse_nil, List.nil_append]
    grind
  | cons member rest ih =>
    rw [List.foldlM_cons, List.foldlM_cons, bind_eq_ok, bind_eq_ok, knownKeys_cons]
    constructor
    · intro h
      obtain ⟨⟨seen₁, value₁⟩, hstep, hrest⟩ := h
      obtain ⟨hfill, hnew, rfl⟩ := fillMember_eq_ok.mp hstep
      obtain ⟨hfold, hnodup, hfresh, rfl⟩ := ih.mp hrest
      refine ⟨⟨value₁, hfill, hfold⟩, ?_⟩
      cases hk : shape.knownKey? member <;> grind
    · intro h
      obtain ⟨⟨value₁, hfill, hfold⟩, hnodup, hfresh, rfl⟩ := h
      refine ⟨(_, value₁), fillMember_eq_ok.mpr ⟨hfill, ?_, rfl⟩, ih.mpr ⟨hfold, ?_⟩⟩
      · cases hk : shape.knownKey? member <;> grind
      · cases hk : shape.knownKey? member <;> grind

theorem readObject_eq_ok {members : List (Tree × Tree)} {stop : Option Fault} {result : σ} :
    shape.readObject members stop = .ok result ↔
      stop = none ∧ members.foldlM shape.fillOne shape.empty = .ok result ∧ (shape.knownKeys members).Nodup ∧
        ∀ slot ∈ shape.slots, slot.presence = .required → slot.key ∈ shape.knownKeys members := by
  have hrequired : ∀ keys : List String,
      (shape.slots.find? fun slot => slot.presence = .required ∧ slot.key ∉ keys) = none ↔
        ∀ slot ∈ shape.slots, slot.presence = .required → slot.key ∈ keys := by
    intro keys
    simp [List.find?_eq_none]
  unfold readObject
  simp only [bind_eq_ok, orFault_eq_ok, Tree.unlessStop_eq_ok]
  constructor
  · intro h
    obtain ⟨⟨keys, value⟩, hfold, -, ⟨rfl, -⟩, hrest⟩ := h
    obtain ⟨hfill, hnodup, -, rfl⟩ := foldlM_fillMember.mp hfold
    split at hrest
    · cases hrest
    next hnone =>
      cases hrest
      rw [hrequired] at hnone
      exact ⟨rfl, hfill, hnodup, by simpa using hnone⟩
  · intro h
    obtain ⟨rfl, hfill, hnodup, hall⟩ := h
    have hfold := foldlM_fillMember.mpr ⟨hfill, hnodup, fun key _ => List.not_mem_nil, rfl⟩
    have hnone := (hrequired ((shape.knownKeys members).reverse ++ [])).mpr (by simpa using hall)
    refine ⟨_, hfold, (), ⟨rfl, trivial⟩, ?_⟩
    rw [hnone]
    rfl

/-! ## Members in the order of their slots -/

/-- The members fill slots in the order of these, and no required slot is left out. -/
inductive Fills : List (Slot σ) → σ → List (String × Json) → σ → Prop
  | nil {value} : Fills [] value [] value
  | skip {slot slots value members result} : slot.presence ≠ .required → Fills slots value members result →
    Fills (slot :: slots) value members result
  | fill {slot slots value v next members result} : slot.fill value v.tree = .ok next →
    Fills slots next members result → Fills (slot :: slots) value ((slot.key, v) :: members) result

theorem find?_slot (hn : (shape.slots.map (·.key)).Nodup) {slot : Slot σ} (hm : slot ∈ shape.slots) :
    shape.slots.find? (·.key = slot.key) = some slot := by
  cases hfind : shape.slots.find? (·.key = slot.key) with
  | none =>
    have hnone := List.find?_eq_none.mp hfind slot hm
    simp at hnone
  | some other =>
    have hkey : other.key = slot.key := by simpa using List.find?_some hfind
    rw [List.inj_on_of_nodup_map hn (List.mem_of_find?_eq_some hfind) hm hkey]

theorem fillOne_known {k : String} {slot : Slot σ} (hfind : shape.slots.find? (·.key = k) = some slot) (value : σ) (t : Tree) :
    shape.fillOne value (.str k, t) = slot.fill value t := by
  unfold fillOne
  simp only [Tree.key, orFault, bind, Except.bind, hfind]

theorem fold_of_fills {slots : List (Slot σ)} {value result : σ} {members : List (String × Json)}
    (h : Fills slots value members result) (hslots : ∀ slot ∈ slots, shape.slots.find? (·.key = slot.key) = some slot) :
    (Json.memberTrees members).foldlM shape.fillOne value = .ok result ∧
      shape.knownKeys (Json.memberTrees members) = members.map Prod.fst ∧
      (members.map Prod.fst).Sublist (slots.map (·.key)) ∧
      ∀ slot ∈ slots, slot.presence = .required → slot.key ∈ members.map Prod.fst := by
  induction h with
  | nil => exact ⟨rfl, rfl, List.Sublist.refl [], by simp⟩
  | @skip slot slots value members result hskip _ ih =>
    obtain ⟨hfold, hknown, hsub, hrequired⟩ := ih fun slot hm => hslots slot (List.mem_cons_of_mem _ hm)
    refine ⟨hfold, hknown, hsub.cons _, ?_⟩
    exact List.forall_mem_cons.mpr ⟨fun h => absurd h hskip, hrequired⟩
  | @fill slot slots value v next members result hfill _ ih =>
    obtain ⟨hfold, hknown, hsub, hrequired⟩ := ih fun slot hm => hslots slot (List.mem_cons_of_mem _ hm)
    have hfind := hslots slot List.mem_cons_self
    have hone : shape.fillOne value (.str slot.key, v.tree) = .ok next := by
      rw [fillOne_known hfind]
      exact hfill
    refine ⟨?_, ?_, hsub.cons_cons _, ?_⟩
    · rw [Json.memberTrees, List.foldlM_cons, bind_eq_ok]
      exact ⟨next, hone, hfold⟩
    · have hkey : shape.knownKey? (.str slot.key, v.tree) = some slot.key := by
        unfold knownKey?
        simp only [hfind, Option.map_some]
      rw [Json.memberTrees, knownKeys_cons, hknown, hkey]
      rfl
    · refine List.forall_mem_cons.mpr ⟨fun _ => List.mem_cons_self, ?_⟩
      intro other hm h
      exact List.mem_cons_of_mem _ (hrequired other hm h)

/-! ## Members in any order -/

end Shape

/-- It does not matter which of the two slots is filled first. -/
def Slot.Commute {σ : Type} (a b : Slot σ) : Prop :=
  ∀ value t u result, (a.fill value t >>= (b.fill · u)) = .ok result ↔ (b.fill value u >>= (a.fill · t)) = .ok result

instance {σ : Type} : Std.Symm (@Slot.Commute σ) where
  symm _ _ h value t u result := (h value u t result).symm

/-- Slots that only put what they read into different places. -/
theorem commute_of_store {σ α β : Type} {k l : String} {p q : Presence} {read : Reader α} {store : σ → α → σ}
    {read' : Reader β} {store' : σ → β → σ} (h : ∀ s a b, store' (store s a) b = store (store' s b) a) :
    Slot.Commute ⟨k, p, fun s t => store s <$> read t⟩ ⟨l, q, fun s t => store' s <$> read' t⟩ := by
  intro value t u result
  simp only [bind_eq_ok, map_eq_ok]
  constructor
  · intro hall
    obtain ⟨_, ⟨a, ha, rfl⟩, b, hb, rfl⟩ := hall
    exact ⟨_, ⟨b, hb, rfl⟩, a, ha, (h value a b).symm⟩
  · intro hall
    obtain ⟨_, ⟨b, hb, rfl⟩, a, ha, rfl⟩ := hall
    exact ⟨_, ⟨a, ha, rfl⟩, b, hb, h value a b⟩

theorem foldlM_perm {ε σ α : Type} {f : σ → α → Except ε σ} {as bs : List α} (hperm : as.Perm bs)
    (hcomm : as.Pairwise fun a b => ∀ s r, (f s a >>= (f · b)) = .ok r ↔ (f s b >>= (f · a)) = .ok r) {s r : σ}
    (h : as.foldlM f s = .ok r) : bs.foldlM f s = .ok r := by
  induction hperm generalizing s with
  | nil => exact h
  | cons a _ ih =>
    rw [List.foldlM_cons, bind_eq_ok] at h ⊢
    obtain ⟨s', ha, h⟩ := h
    exact ⟨s', ha, ih (List.pairwise_cons.mp hcomm).2 h⟩
  | swap a b rest =>
    have hab := (List.pairwise_cons.mp hcomm).1 a List.mem_cons_self
    simp only [List.foldlM_cons, ← bind_assoc] at h ⊢
    rw [bind_eq_ok] at h ⊢
    obtain ⟨s', hstep, h⟩ := h
    exact ⟨s', (hab s s').mp hstep, h⟩
  | trans hperm _ ih ih' =>
    exact ih' ((hperm.pairwise_iff fun h s r => (h s r).symm).mp hcomm) (ih hcomm h)

namespace Shape

variable {σ : Type} {shape : Shape σ}

/-- The slots have different keys and can be filled in any order. -/
structure Lawful (shape : Shape σ) : Prop where
  nodup : (shape.slots.map (·.key)).Nodup
  commute : shape.slots.Pairwise Slot.Commute

theorem fillOne_eq_ok {value result : σ} {m : Tree × Tree} : shape.fillOne value m = .ok result ↔ ∃ key, m.1 = .str key ∧
    ((shape.slots.find? (·.key = key) = none ∧ m.2.pass = .ok () ∧ value = result) ∨
      ∃ slot, shape.slots.find? (·.key = key) = some slot ∧ slot.fill value m.2 = .ok result) := by
  unfold fillOne
  simp only [bind_eq_ok, orFault_eq_ok, Tree.key_eq_ok]
  refine exists_congr fun key => and_congr_right fun _ => ?_
  cases shape.slots.find? (·.key = key) with
  | none => simp only [check_bind_eq_ok, orFault_eq_ok, pure_eq_ok, true_and, reduceCtorEq, false_and, exists_false, or_false]
  | some slot => simp

/-- Of two members that do not fill the same slot, either can be read first. -/
theorem Lawful.fillOne_swap (hs : shape.Lawful) {m m' : Tree × Tree}
    (hne : ∀ k ∈ shape.knownKey? m, ∀ k' ∈ shape.knownKey? m', k ≠ k') {value next result : σ}
    (h : shape.fillOne value m = .ok next) (h' : shape.fillOne next m' = .ok result) :
    ∃ other, shape.fillOne value m' = .ok other ∧ shape.fillOne other m = .ok result := by
  obtain ⟨t, v⟩ := m
  obtain ⟨t', v'⟩ := m'
  obtain ⟨key, rfl, ⟨hnone, hpass, rfl⟩ | ⟨slot, hslot, hfill⟩⟩ := fillOne_eq_ok.mp h
  · exact ⟨result, h', fillOne_eq_ok.mpr ⟨key, rfl, .inl ⟨hnone, hpass, rfl⟩⟩⟩
  obtain ⟨key', rfl, ⟨hnone, hpass, rfl⟩ | ⟨slot', hslot', hfill'⟩⟩ := fillOne_eq_ok.mp h'
  · exact ⟨value, fillOne_eq_ok.mpr ⟨key', rfl, .inl ⟨hnone, hpass, rfl⟩⟩, h⟩
  have hslots : slot ≠ slot' := by
    rintro rfl
    refine hne slot.key ?_ slot.key ?_ rfl
    · simp [knownKey?, hslot]
    · simp [knownKey?, hslot']
  have hboth := hs.commute.forall (List.mem_of_find?_eq_some hslot) (List.mem_of_find?_eq_some hslot') hslots value v v' result
  obtain ⟨other, hother, hresult⟩ := bind_eq_ok.mp (hboth.mp (bind_eq_ok.mpr ⟨next, hfill, hfill'⟩))
  exact ⟨other, fillOne_eq_ok.mpr ⟨key', rfl, .inr ⟨slot', hslot', hother⟩⟩,
    fillOne_eq_ok.mpr ⟨key, rfl, .inr ⟨slot, hslot, hresult⟩⟩⟩

/-- The members of a record may come in any order. -/
theorem Lawful.readObject_perm (hs : shape.Lawful) {members members' : List (Tree × Tree)} (hperm : members.Perm members')
    {result : σ} (h : shape.readObject members none = .ok result) : shape.readObject members' none = .ok result := by
  obtain ⟨-, hfold, hnodup, hrequired⟩ := readObject_eq_ok.mp h
  have hkeys : (shape.knownKeys members).Perm (shape.knownKeys members') := hperm.filterMap _
  refine readObject_eq_ok.mpr ⟨rfl, foldlM_perm hperm ?_ hfold, hkeys.nodup_iff.mp hnodup, ?_⟩
  · rw [knownKeys, List.Nodup, List.pairwise_filterMap] at hnodup
    refine hnodup.imp fun {m m'} hne value result => ?_
    simp only [bind_eq_ok]
    constructor
    · rintro ⟨next, h, h'⟩
      exact hs.fillOne_swap hne h h'
    · rintro ⟨next, h, h'⟩
      exact hs.fillOne_swap (fun k hk k' hk' e => hne k' hk' k hk e.symm) h h'
  · exact fun slot hm hreq => hkeys.mem_iff.mp (hrequired slot hm hreq)

/-- What fills the slots in their order fills them in any order. -/
theorem Lawful.read (hs : shape.Lawful) {members written : List (String × Json)} {result : σ}
    (h : Fills shape.slots shape.empty members result) (hperm : members.Perm written) {levels : Nat} (hlevels : levels ≠ 0) :
    readRecord levels shape (Json.obj written).tree = .ok result := by
  obtain ⟨hfold, hknown, hsub, hrequired⟩ := fold_of_fills h fun slot hm => find?_slot hs.nodup hm
  have hread : shape.readObject (Json.memberTrees members) none = .ok result :=
    readObject_eq_ok.mpr ⟨rfl, hfold, hknown ▸ hsub.nodup hs.nodup, fun slot hm hreq => hknown ▸ hrequired slot hm hreq⟩
  have htrees : (Json.memberTrees members).Perm (Json.memberTrees written) := by
    rw [Json.memberTrees_eq_map, Json.memberTrees_eq_map]
    exact hperm.map _
  rw [Json.tree, readRecord, if_neg hlevels]
  exact hs.readObject_perm htrees hread

end Shape

theorem readNullable_tree {α : Type} {read : Reader α} {v : Json} (h : v ≠ .null) {a : α} (hread : read v.tree = .ok a) :
    readNullable read v.tree = .ok (some a) := by
  cases v with
  | null => exact absurd rfl h
  | _ => exact map_eq_ok.mpr ⟨a, hread, rfl⟩

section
variable {σ α : Type} {key : String} {read : Reader α} {store : σ → Option α → σ} {slots : List (Slot σ)} {value result : σ}
  {members : List (String × Json)}

theorem fills_skip (h : Shape.Fills slots value members result) :
    Shape.Fills (nullableSlot key read store :: slots) value members result :=
  .skip (by simp [nullableSlot]) h

theorem fills_nullable {v : Json} (hv : v ≠ .null) {a : α} (hread : read v.tree = .ok a)
    (h : Shape.Fills slots (store value (some a)) members result) :
    Shape.Fills (nullableSlot key read store :: slots) value ((key, v) :: members) result := by
  have hfill : (nullableSlot key read store).fill value v.tree = .ok (store value (some a)) :=
    map_eq_ok.mpr ⟨some a, readNullable_tree hv hread, rfl⟩
  exact .fill hfill h

/-- An attribute that is left out if it is not set. -/
theorem fills_optional {a : Option α} {v : Option Json} {write : α → Json} (hv : v = a.map write)
    (hread : ∀ x ∈ a, write x ≠ .null ∧ read (write x).tree = .ok x) (hnone : store value none = value)
    (h : Shape.Fills slots (store value a) members result) :
    Shape.Fills (nullableSlot key read store :: slots) value (Json.optional key v ++ members) result := by
  subst hv
  cases a with
  | none =>
    rw [hnone] at h
    exact fills_skip h
  | some x =>
    obtain ⟨hx, hread⟩ := hread x rfl
    exact fills_nullable hx hread h

end

/-! ## A record with one slot -/

namespace Shape

variable {σ : Type} {shape : Shape σ} {slot : Slot σ}

/-- The fold only sees the values of the one key. -/
theorem foldlM_fillOne_single (hslots : shape.slots = [slot]) {members : List (Tree × Tree)} {value result : σ}
    (h : members.foldlM shape.fillOne value = .ok result) :
    (valuesOf slot.key members).foldlM slot.fill value = .ok result ∧
      shape.knownKeys members = (valuesOf slot.key members).map fun _ => slot.key := by
  induction members generalizing value with
  | nil => exact ⟨h, rfl⟩
  | cons member rest ih =>
    obtain ⟨t, v⟩ := member
    rw [List.foldlM_cons, bind_eq_ok] at h
    obtain ⟨value₁, hfill, hrest⟩ := h
    obtain ⟨hfold, hkeys⟩ := ih hrest
    unfold fillOne at hfill
    simp only [bind_eq_ok, orFault_eq_ok, Tree.key_eq_ok, hslots] at hfill
    obtain ⟨key, rfl, hfill⟩ := hfill
    rw [knownKeys_cons, hkeys]
    unfold knownKey?
    rw [hslots]
    by_cases hkey : slot.key = key
    · subst hkey
      simp only [List.find?_cons, decide_true] at hfill
      simp only [List.find?_cons, decide_true, Option.map_some, Option.toList_some, valuesOf, if_true, List.foldlM_cons,
        bind_eq_ok]
      exact ⟨⟨value₁, hfill, hfold⟩, rfl⟩
    · have hnone : [slot].find? (fun x => decide (x.key = key)) = none := by simp [hkey]
      rw [hnone] at hfill
      simp only [bind_eq_ok, pure_eq_ok] at hfill
      obtain ⟨-, -, rfl⟩ := hfill
      simp only [valuesOf, Ne.symm hkey, if_false, hnone, Option.map_none, Option.toList_none, List.nil_append]
      exact ⟨hfold, trivial⟩

section
variable (hslots : shape.slots = [slot]) (hrequired : slot.presence = .required)
include hslots hrequired

theorem readObject_single {members : List (Tree × Tree)} {stop : Option Fault} {result : σ}
    (h : shape.readObject members stop = .ok result) :
    stop = none ∧ ∃ t, valuesOf slot.key members = [t] ∧ slot.fill shape.empty t = .ok result := by
  obtain ⟨rfl, hfold, hnodup, hall⟩ := readObject_eq_ok.mp h
  obtain ⟨hvalues, hkeys⟩ := foldlM_fillOne_single hslots hfold
  have hmem := hall slot (by rw [hslots]; exact List.mem_cons_self) hrequired
  rw [hkeys] at hnodup hmem
  cases hv : valuesOf slot.key members with
  | nil => simp [hv] at hmem
  | cons t rest =>
    cases rest with
    | nil =>
      rw [hv] at hvalues
      simp only [List.foldlM_cons, List.foldlM_nil, bind_eq_ok, pure_eq_ok] at hvalues
      obtain ⟨_, hfill, rfl⟩ := hvalues
      exact ⟨rfl, t, rfl, hfill⟩
    | cons t' rest => simp [hv] at hnodup

theorem readArray_single {items : List Tree} {stop : Option Fault} {result : σ}
    (h : shape.readArray stop shape.slots 0 shape.empty items = .ok result) :
    stop = none ∧ ∃ t, items = [t] ∧ slot.fill shape.empty t = .ok result := by
  rw [hslots] at h
  cases items with
  | nil => simp [readArray, hrequired, bind_eq_ok] at h
  | cons t rest =>
    simp only [readArray, bind_eq_ok] at h
    obtain ⟨value, hfill, h⟩ := h
    cases rest with
    | nil =>
      simp only [readArray, orFault_eq_ok, Tree.unlessStop_eq_ok] at h
      obtain ⟨hstop, rfl⟩ := h
      exact ⟨hstop, t, rfl, hfill⟩
    | cons t' rest => cases h

end

end Shape

end TypedContent

import Mathlib
import TypedContent.Proofs.Schema.Edited

/-!
# Brackets to spare

A reader is told how many brackets may still be opened. Where a value opens fewer, it does not
matter how many more might be: the value is read the same, and if it is wrong, the same is wrong.
-/

namespace TypedContent

/-! ## Kept values -/

namespace Tree

theorem keepItems_congr {m n : Nat} {items : List Tree} (h : ∀ x ∈ items, x.keep m = x.keep n) :
    keepItems m items = keepItems n items := by
  induction items with
  | nil => rfl
  | cons item rest ih =>
    obtain ⟨hitem, hrest⟩ := List.forall_mem_cons.mp h
    rw [keepItems, keepItems, hitem, ih hrest]

theorem keepMembers_congr {m n : Nat} {members : List (Tree × Tree)} (h : ∀ x ∈ members, x.2.keep m = x.2.keep n) :
    ∀ done, keepMembers m members done = keepMembers n members done := by
  induction members with
  | nil => exact fun _ => rfl
  | cons member rest ih =>
    obtain ⟨hvalue, hrest⟩ := List.forall_mem_cons.mp h
    intro done
    rw [keepMembers, keepMembers, hvalue]
    simp only [ih hrest]

theorem Nested.keep_add {n : Nat} {t : Tree} (h : t.Nested n) (m : Nat) : t.keep (n + m) = t.keep n := by
  induction h with
  | arr _ ih => rw [Nat.add_right_comm, keep, keep, keepItems_congr ih]
  | obj _ ih => rw [Nat.add_right_comm, keep, keep, keepMembers_congr ih]
  | _ => simp only [keep]

end Tree

/-! ## Records that read the same values the same -/

variable {σ : Type}

/-- Two slots that read alike what they are given. -/
structure Slot.AgreeOn (given : Tree → Prop) (a b : Slot σ) : Prop where
  key : a.key = b.key
  presence : a.presence = b.presence
  fill : ∀ value t, given t → a.fill value t = b.fill value t

namespace Shape

structure AgreeOn (given : Tree → Prop) (a b : Shape σ) : Prop where
  name : a.name = b.name
  empty : a.empty = b.empty
  slots : List.Forall₂ (Slot.AgreeOn given) a.slots b.slots

variable {given : Tree → Prop} {a b : Shape σ} (h : AgreeOn given a b)
include h

theorem AgreeOn.fillMember {read : List String × σ} {member : Tree × Tree} (hm : given member.2) :
    a.fillMember read member = b.fillMember read member := by
  unfold Shape.fillMember
  congr 1
  funext key
  rcases find?_forall₂ (fun a b hab => by rw [hab.key]) h.slots (p := (·.key = key)) (q := (·.key = key)) with
    ⟨ha, hb⟩ | ⟨slot, slot', ha, hb, hslot⟩
  · simp only [ha, hb]
  · simp only [ha, hb, hslot.fill _ _ hm]

theorem AgreeOn.foldlM_fillMember {members : List (Tree × Tree)} (hm : ∀ m ∈ members, given m.2) :
    ∀ read, members.foldlM a.fillMember read = members.foldlM b.fillMember read := by
  induction members with
  | nil => exact fun _ => rfl
  | cons member rest ih =>
    obtain ⟨hmember, hrest⟩ := List.forall_mem_cons.mp hm
    intro read
    rw [List.foldlM_cons, List.foldlM_cons, h.fillMember hmember]
    simp only [ih hrest]

theorem AgreeOn.readObject {members : List (Tree × Tree)} (hm : ∀ m ∈ members, given m.2) (stop : Option Fault) :
    a.readObject members stop = b.readObject members stop := by
  unfold Shape.readObject
  rw [h.foldlM_fillMember hm, h.empty]
  congr 1
  funext read
  obtain ⟨keys, value⟩ := read
  dsimp only
  congr 1
  funext _
  rcases find?_forall₂ (fun a b hab => by rw [hab.key, hab.presence]) h.slots
      (p := fun slot => slot.presence = .required ∧ slot.key ∉ keys)
      (q := fun slot => slot.presence = .required ∧ slot.key ∉ keys) with ⟨ha, hb⟩ | ⟨slot, slot', ha, hb, hslot⟩
  · simp only [ha, hb]
  · simp only [ha, hb, hslot.key]

theorem AgreeOn.readArray {stop : Option Fault} {slots slots' : List (Slot σ)}
    (hslots : List.Forall₂ (Slot.AgreeOn given) slots slots') : ∀ {items : List Tree}, (∀ t ∈ items, given t) →
      ∀ count value, a.readArray stop slots count value items = b.readArray stop slots' count value items := by
  induction hslots with
  | nil =>
    intro items _ count value
    cases items <;> rfl
  | @cons slot slot' slots slots' hslot _ ih =>
    intro items hm count value
    cases items with
    | nil => simp only [Shape.readArray, hslot.presence, h.name, h.slots.length_eq, ih hm]
    | cons item items =>
      obtain ⟨hitem, hitems⟩ := List.forall_mem_cons.mp hm
      simp only [Shape.readArray, hslot.fill _ _ hitem, ih hitems]

end Shape

/-! ## Readers that are told how many brackets are left -/

/-- What nests no deeper is read with brackets to spare as it is without. -/
def Spares {α : Type} (read : Nat → Reader α) (n : Nat) : Prop := ∀ m t, t.Nested n → read (n + m) t = read n t

section
variable {n : Nat}

theorem spares_readJson : Spares readJson n := by
  intro m t h
  rw [readJson, readJson, h.keep_add]

theorem spares_readStrings : Spares (fun levels => readSequence levels readString) n := by
  intro m t h
  cases h with
  | @arr k items stop _ =>
    have hlevels : k + 1 + m ≠ 0 := by omega
    simp only [readSequence, hlevels, Nat.succ_ne_zero, if_false]
  | _ => rfl

theorem spares_readNullable {α : Type} {read : Nat → Reader α} (h : Spares read n) :
    Spares (fun levels => readNullable (read levels)) n := by
  intro m t ht
  simp only [readNullable]
  split <;> simp only [h m _ ht]

theorem readEntries_congr {α : Type} {read read' : Reader α} {members : List (Tree × Tree)}
    (h : ∀ m ∈ members, read m.2 = read' m.2) : readEntries read members = readEntries read' members := by
  induction members with
  | nil => rfl
  | cons member rest ih =>
    obtain ⟨hvalue, hrest⟩ := List.forall_mem_cons.mp h
    rw [readEntries, readEntries, hvalue, ih hrest]

/-- Fields are an object of fields, which are read with one bracket less. -/
theorem spares_readFields (h : ∀ k, n = k + 1 → Spares Record.field.read k) : Spares readFields n := by
  intro m t ht
  rw [readFields_eq, readFields_eq, Site.read, Site.read]
  cases ht with
  | @obj k members stop hmembers =>
    have hread : ∀ x ∈ members, Record.field.read (k + 1 + m - 1) x.2 = Record.field.read (k + 1 - 1) x.2 := by
      intro x hx
      rw [Nat.add_right_comm, Nat.add_sub_cancel, Nat.add_sub_cancel]
      exact h k rfl m x.2 (hmembers x hx)
    have hlevels : k + 1 + m ≠ 0 := by omega
    simp only [readDefinitions, hlevels, Nat.succ_ne_zero, if_false, readEntries_congr hread]
  | _ => rfl

theorem fieldShape_agree (hfields : Spares readFields n) (hdescriptors : Spares readDescriptors n) (m : Nat) :
    Shape.AgreeOn (Tree.Nested n) (fieldShape (n + m) (readFields (n + m)) (readDescriptors (n + m)))
      (fieldShape n (readFields n) (readDescriptors n)) where
  name := rfl
  empty := rfl
  slots := by
    have hsame : ∀ slot : Slot WrittenField, Slot.AgreeOn (Tree.Nested n) slot slot := fun _ => ⟨rfl, rfl, fun _ _ _ => rfl⟩
    have hnullable : ∀ {α : Type} (key : String) {read : Nat → Reader α} (store : WrittenField → Option α → WrittenField),
        Spares read n →
          Slot.AgreeOn (Tree.Nested n) (nullableSlot key (read (n + m)) store) (nullableSlot key (read n) store) := by
      intro α key read store hread
      exact ⟨rfl, rfl, fun value t ht => congrArg (store value <$> ·) (spares_readNullable hread m t ht)⟩
    exact .cons (hsame _) (.cons (hsame _) (.cons (hsame _) (.cons (hnullable _ _ spares_readJson) (.cons (hsame _)
      (.cons (hnullable _ _ spares_readJson) (.cons (hsame _) (.cons (hnullable _ _ spares_readStrings) (.cons (hsame _)
        (.cons (hsame _) (.cons (hnullable _ _ hfields) (.cons (hnullable _ _ hdescriptors) (.cons (hsame _) .nil))))))))))))

/-- The values in a field are read with one bracket less. -/
theorem spares_readField (hfields : ∀ k, n = k + 1 → Spares readFields k)
    (hdescriptors : ∀ k, n = k + 1 → Spares readDescriptors k) : Spares Record.field.read n := by
  intro m t ht
  rw [Record.read, Record.read]
  cases ht with
  | @obj k members stop hmembers =>
    have hshape := fieldShape_agree (hfields k rfl) (hdescriptors k rfl) m
    have hlevels : k + 1 + m ≠ 0 := by omega
    rw [readRecord, readRecord, if_neg hlevels, if_neg (Nat.succ_ne_zero k), Nat.add_right_comm, Nat.add_sub_cancel,
      Nat.add_sub_cancel]
    exact hshape.readObject hmembers stop
  | @arr k items stop hitems =>
    have hshape := fieldShape_agree (hfields k rfl) (hdescriptors k rfl) m
    have hlevels : k + 1 + m ≠ 0 := by omega
    rw [readRecord, readRecord, if_neg hlevels, if_neg (Nat.succ_ne_zero k), Nat.add_right_comm, Nat.add_sub_cancel,
      Nat.add_sub_cancel]
    exact hshape.readArray hshape.slots hitems 0 _
  | _ => rfl

/-! ## Descriptors -/

theorem mem_valuesOf {key : String} {members : List (Tree × Tree)} {t : Tree} (h : t ∈ valuesOf key members) :
    ∃ m ∈ members, m.2 = t := by
  rw [valuesOf_eq_filterMap, List.mem_filterMap] at h
  obtain ⟨m, hm, hvalue⟩ := h
  refine ⟨m, hm, ?_⟩
  unfold valueOf? at hvalue
  split at hvalue
  · simpa using (Option.ite_none_right_eq_some.mp hvalue).2
  · cases hvalue

theorem readOnce_congr {α : Type} {read read' : Reader α} {members : List (Tree × Tree)}
    (h : ∀ m ∈ members, read m.2 = read' m.2) (key : String) : readOnce read key members = readOnce read' key members := by
  unfold readOnce
  split
  next t ht =>
    obtain ⟨m, hm, rfl⟩ := mem_valuesOf (ht ▸ List.mem_singleton_self t : t ∈ valuesOf key members)
    rw [h m hm]
  · rfl

/-- The values in a descriptor are read with one bracket less. -/
theorem readDescriptor_add (h : ∀ k, n = k + 1 → Spares readFields k) (m : Nat) {t : Tree} (ht : t.Nested n) :
    readDescriptor (n + m) (readFields (n + m - 1)) t = readDescriptor n (readFields (n - 1)) t := by
  cases ht with
  | @obj k members stop hmembers =>
    rw [Nat.add_right_comm, Nat.add_sub_cancel, Nat.add_sub_cancel]
    have hfields := readOnce_congr (fun x hx => h k rfl m x.2 (hmembers x hx)) "fields"
    have hoptions := readOnce_congr (fun x hx => spares_readStrings m x.2 (hmembers x hx)) "options"
    simp only [readDescriptor, Nat.add_sub_cancel, hfields, hoptions]
  | _ => rfl

theorem mapM_congr {α β : Type} {f g : α → Option β} {as : List α} (h : ∀ a ∈ as, f a = g a) : as.mapM f = as.mapM g := by
  induction as with
  | nil => rfl
  | cons a rest ih =>
    obtain ⟨ha, hrest⟩ := List.forall_mem_cons.mp h
    rw [List.mapM_cons, List.mapM_cons, ha, ih hrest]

theorem spares_readDescriptors (h : ∀ k, k < n → Spares readFields k) : Spares readDescriptors n := by
  intro m t ht
  have hsame : described? (n + m) (readFields (n + m - 1 - 1)) (readFields (n + m - 1)) t =
      described? n (readFields (n - 1 - 1)) (readFields (n - 1)) t := by
    have halone := readDescriptor_add (fun k hk => h k (by omega)) m ht
    cases ht with
    | @arr k items stop hitems =>
      rw [described?, described?, Nat.add_right_comm, Nat.add_sub_cancel, Nat.add_sub_cancel]
      rw [mapM_congr fun x hx => readDescriptor_add (fun j hj => h j (by omega)) m (hitems x hx)]
    | _ => simp only [described?, halone]
  rw [readDescriptors_eq, readDescriptors_eq, describe_eq, describe_eq, hsame, spares_readJson m t ht]

/-! ## All at once -/

theorem spares_all (n : Nat) : Spares readFields n ∧ Spares Record.field.read n ∧ Spares readDescriptors n := by
  induction n using Nat.strong_induction_on with
  | h n ih =>
    have hfields := spares_readFields (n := n) fun k hk => (ih k (by omega)).2.1
    have hfield := spares_readField (n := n) (fun k hk => (ih k (by omega)).1) fun k hk => (ih k (by omega)).2.2
    exact ⟨hfields, hfield, spares_readDescriptors fun k hk => (ih k hk).1⟩

end

/-- Fields are read the same, right or wrong, wherever the brackets suffice. -/
theorem readFields_of_le {m n : Nat} {t : Tree} (h : t.Nested n) (hle : n ≤ m) : readFields m t = readFields n t := by
  obtain ⟨k, rfl⟩ := Nat.exists_eq_add_of_le hle
  exact (spares_all n).1 k t h

end TypedContent

import Mathlib
import TypedContent.Proofs.Reading.Descriptor
import TypedContent.Proofs.Reading.Members
import TypedContent.Reading.Buffer

/-!
# What has been kept is read as the text is

A value is kept whenever it could be read as any JSON, and then it is that JSON. A reader of texts and
a reader of kept values agree if they give the same on each value that is kept, where a reader of texts
may say why it gives nothing. Readers that are put together in the same way agree if their parts do.
-/

namespace TypedContent

/-! ## What is kept -/

namespace Tree

theorem bufferItems_eq_ok {n : Nat} {items : List Tree} {bs : List Buffered} :
    bufferItems n items = .ok bs ↔ List.Forall₂ (fun t b => buffer n t = .ok b) items bs := by
  induction items generalizing bs with
  | nil => simp [bufferItems, eq_comm]
  | cons item rest ih =>
    simp only [bufferItems, bind_eq_ok, pure_eq_ok, ih, List.forall₂_cons_left_iff]
    grind

/-- A member is kept under its key. -/
abbrev KeptAs (n : Nat) (m : Tree × Tree) (b : String × Buffered) : Prop := m.1 = .str b.1 ∧ buffer n m.2 = .ok b.2

theorem bufferMembers_eq_ok {n : Nat} {members : List (Tree × Tree)} {bs : List (String × Buffered)} :
    bufferMembers n members = .ok bs ↔ List.Forall₂ (KeptAs n) members bs := by
  induction members generalizing bs with
  | nil => simp [bufferMembers, eq_comm]
  | cons member rest ih =>
    obtain ⟨key, value⟩ := member
    simp only [bufferMembers, bind_eq_ok, pure_eq_ok, key_eq_ok, ih, List.forall₂_cons_left_iff]
    constructor
    · rintro ⟨name, hkey, b, hb, bs, hrest, rfl⟩
      exact ⟨(name, b), bs, ⟨hkey, hb⟩, hrest, rfl⟩
    · rintro ⟨⟨name, b⟩, bs, ⟨hkey, hb⟩, hrest, rfl⟩
      exact ⟨name, hkey, b, hb, bs, hrest, rfl⟩

/-- A kept value by its cases; what stands in brackets is kept with one bracket less. -/
inductive Kept : Nat → Tree → Buffered → Prop
  | null {n} : Kept n .null .null
  | bool {n b} : Kept n (.bool b) (.bool b)
  | num {n x} : Kept n (.num x) (.num x)
  | str {n s} : Kept n (.str s) (.str s)
  | arr {n items bs} : List.Forall₂ (fun t b => buffer n t = .ok b) items bs → Kept (n + 1) (.arr items none) (.arr bs)
  | obj {n members bs} : List.Forall₂ (KeptAs n) members bs → Kept (n + 1) (.obj members none) (.obj bs)

theorem kept {n : Nat} {t : Tree} {b : Buffered} (h : buffer n t = .ok b) : Kept n t b := by
  cases t with
  | arr items stop =>
    cases n with
    | zero => cases h
    | succ n =>
      simp only [buffer, bind_eq_ok, bufferItems_eq_ok, unlessStop_eq_ok] at h
      obtain ⟨bs, hbs, rfl, rfl⟩ := h
      exact .arr hbs
  | obj members stop =>
    cases n with
    | zero => cases h
    | succ n =>
      simp only [buffer, bind_eq_ok, bufferMembers_eq_ok, unlessStop_eq_ok] at h
      obtain ⟨bs, hbs, rfl, rfl⟩ := h
      exact .obj hbs
  | _ => cases n <;> cases h <;> constructor

/-! ## Kept for later and kept as a value -/

theorem keepItems_eq {n : Nat} (h : ∀ t, keep n t = Buffered.json <$> buffer n t) (items : List Tree) :
    keepItems n items = Buffered.jsonItems <$> bufferItems n items := by
  induction items with
  | nil => rfl
  | cons item rest ih =>
    rw [keepItems, bufferItems, h, ih]
    cases buffer n item with
    | error f => rfl
    | ok b => cases bufferItems n rest <;> rfl

theorem keepMembers_eq {n : Nat} (h : ∀ t, keep n t = Buffered.json <$> buffer n t) (members : List (Tree × Tree))
    (done : List (String × Json)) :
    keepMembers n members done = (Buffered.jsonMembers · done) <$> bufferMembers n members := by
  induction members generalizing done with
  | nil => rfl
  | cons member rest ih =>
    obtain ⟨key, value⟩ := member
    rw [keepMembers, bufferMembers, h]
    cases key.key with
    | error f => rfl
    | ok name =>
      cases buffer n value with
      | error f => rfl
      | ok b =>
        refine (ih _).trans ?_
        cases bufferMembers n rest <;> rfl

/-- The same texts can be kept either way, and where one breaks the other does. -/
theorem keep_eq (n : Nat) (t : Tree) : keep n t = Buffered.json <$> buffer n t := by
  induction n generalizing t with
  | zero => cases t <;> rfl
  | succ n ih =>
    cases t with
    | arr items stop =>
      rw [keep, buffer, keepItems_eq ih]
      cases bufferItems n items with
      | error f => rfl
      | ok bs => cases stop <;> rfl
    | obj members stop =>
      rw [keep, buffer, keepMembers_eq ih]
      cases bufferMembers n members with
      | error f => rfl
      | ok bs => cases stop <;> rfl
    | _ => rfl

theorem buffer_ok_iff {n : Nat} {t : Tree} : (∃ b, buffer n t = .ok b) ↔ t.Whole ∧ t.Nested n := by
  rw [← keep_ok_iff, keep_eq]
  cases buffer n t <;> simp [Functor.map, Except.map]

theorem whole_of_buffer {n : Nat} {t : Tree} {b : Buffered} (h : buffer n t = .ok b) : t.Whole :=
  (buffer_ok_iff.mp ⟨b, h⟩).1

end Tree

/-! ## Readers that agree -/

section
variable {α β : Type}

theorem toOption_bind {ε : Type} (x : Except ε α) (f : α → Except ε β) :
    (x >>= f).toOption = x.toOption.bind fun a => (f a).toOption := by
  cases x <;> rfl

theorem toOption_map {ε : Type} (x : Except ε α) (f : α → β) : (f <$> x).toOption = x.toOption.map f := by
  cases x <;> rfl

/-- Both readers give the same on what is kept with `n` brackets. -/
def Agree (n : Nat) (read : Reader α) (read? : Buffered → Option α) : Prop :=
  ∀ t b, Tree.buffer n t = .ok b → (read t).toOption = read? b

variable {n : Nat} {read : Reader α} {read? : Buffered → Option α}

theorem agree_string : Agree n readString Buffered.string? := by
  intro t b h
  cases Tree.kept h <;> rfl

theorem agree_bool : Agree n readBool Buffered.bool? := by
  intro t b h
  cases Tree.kept h <;> rfl

theorem agree_json : Agree n (readJson n) fun b => some b.json := by
  intro t b h
  rw [readJson, Tree.keep_eq, h]
  rfl

theorem Agree.mapM {items : List Tree} {bs : List Buffered} (h : Agree n read read?)
    (hkept : List.Forall₂ (fun t b => Tree.buffer n t = .ok b) items bs) :
    (readItems read items).toOption = bs.mapM read? := by
  induction hkept with
  | nil => rfl
  | @cons t b items bs hb _ ih =>
    rw [readItems, toOption_bind, List.mapM_cons, h t b hb, ← ih]
    cases read? b with
    | none => rfl
    | some a => cases readItems read items <;> rfl

theorem agree_strings : Agree n (readSequence n readString) Buffered.strings? := by
  intro t b h
  cases Tree.kept h with
  | @arr n items bs hbs =>
    rw [readSequence, if_neg (Nat.succ_ne_zero n), Buffered.strings?, ← (agree_string (n := n)).mapM hbs]
    cases readItems readString items <;> rfl
  | _ => rfl

theorem Agree.nullable (h : Agree n read read?) : Agree n (readNullable read) (Buffered.nullable? read?) := by
  intro t b hb
  cases Tree.kept hb with
  | null => rfl
  | _ => exact (toOption_map _ _).trans (congrArg (Option.map some) (h _ _ hb))

/-! ## Members by name -/

variable {members : List (Tree × Tree)} {bs : List (String × Buffered)} {key : String}

theorem valuesOf_kept (key : String) (h : List.Forall₂ (Tree.KeptAs n) members bs) :
    List.Forall₂ (fun t b => Tree.buffer n t = .ok b) (valuesOf key members) (Buffered.valuesAt key bs) := by
  induction h with
  | nil => exact .nil
  | @cons m b members bs hm _ ih =>
    obtain ⟨t, v⟩ := m
    obtain ⟨name, b⟩ := b
    obtain ⟨rfl, hb⟩ : t = .str name ∧ Tree.buffer n v = .ok b := hm
    by_cases hname : name = key
    · simp only [valuesOf, hname, if_true, Buffered.valuesAt, decide_true, List.filter_cons_of_pos, List.map_cons]
      exact .cons hb ih
    · simpa [valuesOf, Buffered.valuesAt, hname] using ih

theorem Agree.once (h : Agree n read read?) (hkept : List.Forall₂ (Tree.KeptAs n) members bs) :
    readOnce read key members = Buffered.once? read? key bs := by
  unfold readOnce Buffered.once?
  have hvalues := valuesOf_kept key hkept
  generalize valuesOf key members = ts at hvalues
  generalize Buffered.valuesAt key bs = values at hvalues
  cases hvalues with
  | nil => rfl
  | cons hb hrest =>
    cases hrest with
    | nil => exact h _ _ hb
    | cons _ _ => rfl

theorem Agree.optional (h : Agree n read read?) (hkept : List.Forall₂ (Tree.KeptAs n) members bs) :
    readOptional read key members = Buffered.optional? read? key bs := by
  unfold readOptional Buffered.optional?
  have hvalues := valuesOf_kept key hkept
  generalize valuesOf key members = ts at hvalues
  generalize Buffered.valuesAt key bs = values at hvalues
  cases hvalues with
  | nil => rfl
  | cons hb hrest =>
    cases hrest with
    | nil => exact h.nullable _ _ hb
    | cons _ _ => rfl

/-- Leaving the members of another key out makes no difference. -/
theorem Buffered.valuesAt_filter {other : String} (h : key ≠ other) :
    valuesAt key (bs.filter (·.1 ≠ other)) = valuesAt key bs := by
  rw [valuesAt, valuesAt, List.filter_filter]
  congr 1
  refine List.filter_congr fun m _ => ?_
  by_cases hm : m.1 = key <;> simp [hm, h]

theorem Buffered.once?_filter {other : String} (h : key ≠ other) :
    once? read? key (bs.filter (·.1 ≠ other)) = once? read? key bs := by
  rw [once?, once?, valuesAt_filter h]

end

end TypedContent

import Mathlib
import TypedContent.Proofs.Reading.Buffer

/-!
# Fields that have been kept

The fields of an item are read from what has been kept, those of a definition from the text as it
comes. Each has its readers, and these agree: what is read of a text is what is read of the same text
once it has been kept, at every depth (`agree_fields`). So descriptors, which are kept first, say what
they would say if they were read from the text (`readDescriptors_eq`).
-/

namespace TypedContent

variable {n : Nat}

/-! ## Descriptors -/

theorem kindName_kept {t : Tree} {b : Buffered} (h : t.buffer n = .ok b) : descriptorType? t = b.kindName? := by
  cases Tree.kept h with
  | @num _ x => cases x <;> rfl
  | _ => rfl

theorem fieldsAmong_eq (bs : List (String × Buffered)) :
    Buffered.fieldsAmong bs = (Buffered.valuesAt "fields" bs).map fun b _ => b.fields? := by
  induction bs with
  | nil => rfl
  | cons m rest ih =>
    obtain ⟨key, b⟩ := m
    rw [Buffered.fieldsAmong, ih]
    by_cases h : key = "fields" <;> simp [Buffered.valuesAt, h]

/-- The kind of an item takes nothing from its label or its type. -/
theorem itemKind?_filter (name : String) (bs : List (String × Buffered))
    (fields : List (Unit → Option (List SourceField))) :
    Buffered.itemKind? name ((bs.filter (·.1 ≠ "labelField")).filter (·.1 ≠ "type")) fields =
      Buffered.itemKind? name bs fields := by
  have hother : ∀ {α : Type} (read? : Buffered → Option α) (key : String), key ≠ "labelField" → key ≠ "type" →
      Buffered.once? read? key ((bs.filter (·.1 ≠ "labelField")).filter (·.1 ≠ "type")) = Buffered.once? read? key bs :=
    fun read? key hlabel htype => (Buffered.once?_filter htype).trans (Buffered.once?_filter hlabel)
  unfold Buffered.itemKind?
  rw [hother Buffered.string? "object" (by decide) (by decide), hother Buffered.strings? "options" (by decide) (by decide)]

section
variable {fields : Reader (List SourceField)} {members : List (Tree × Tree)} {bs : List (String × Buffered)}

theorem descriptorKind_kept (hfields : Agree n fields Buffered.fields?) (h : List.Forall₂ (Tree.KeptAs n) members bs) :
    descriptorKind? (n + 1) fields members = (Buffered.once? Buffered.kindName? "type" bs).bind fun name =>
      Buffered.itemKind? name bs (Buffered.fieldsAmong bs) := by
  have hinner : ItemKind.inlineObject <$> readOnce fields "fields" members =
      Buffered.itemKind? "inline_object" bs (Buffered.fieldsAmong bs) := by
    rw [hfields.once h, fieldsAmong_eq, Buffered.once?]
    rcases Buffered.valuesAt "fields" bs with _ | ⟨b, _ | ⟨b', rest⟩⟩ <;> rfl
  unfold descriptorKind? Buffered.once?
  have htypes := valuesOf_kept "type" h
  generalize valuesOf "type" members = types at htypes
  generalize Buffered.valuesAt "type" bs = values at htypes
  cases htypes with
  | nil => rfl
  | @cons type b _ _ htype hrest =>
    cases hrest with
    | cons _ _ => rfl
    | nil =>
      dsimp only
      rw [kindName_kept htype, agree_string.once h, hinner, Nat.add_sub_cancel, agree_strings.once h]
      cases b.kindName? with
      | none => rfl
      | some name =>
        rw [Option.bind_some]
        split
        any_goals
          rename_i hname
          cases hname
          rfl
        rw [Buffered.itemKind?] <;> simp_all

theorem descriptor_kept (hfields : Agree n fields Buffered.fields?) (h : List.Forall₂ (Tree.KeptAs n) members bs) :
    readDescriptor (n + 1) fields (.obj members none) = Buffered.item? bs (Buffered.fieldsAmong bs) := by
  rw [readDescriptor_obj, agree_string.optional h, descriptorKind_kept hfields h, Buffered.item?]
  simp only [itemKind?_filter, Buffered.once?_filter (show "type" ≠ "labelField" by decide), Option.bind_eq_bind]
  cases Buffered.optional? Buffered.string? "labelField" bs with
  | none => rfl
  | some labelField =>
    cases Buffered.once? Buffered.kindName? "type" bs with
    | none => rfl
    | some name =>
      simp only [Option.bind_some]
      cases Buffered.itemKind? name bs (Buffered.fieldsAmong bs) <;> rfl

theorem descriptors_kept (hfields : ∀ m < n, Agree m (readFields m) Buffered.fields?) {items : List Tree}
    {kept : List Buffered} (h : List.Forall₂ (fun t b => Tree.buffer n t = .ok b) items kept) :
    items.mapM (readDescriptor n (readFields (n - 1))) = Buffered.items? kept := by
  induction h with
  | nil => rfl
  | @cons t b items kept hb _ ih =>
    rw [List.mapM_cons, ih]
    cases Tree.kept hb with
    | @obj n members bs hmembers =>
      rw [Nat.add_sub_cancel, descriptor_kept (hfields n n.lt_succ_self) hmembers, Buffered.items?]
    | _ => rfl

end

theorem described_kept (hfields : ∀ m < n, Agree m (readFields m) Buffered.fields?) {t : Tree} {b : Buffered}
    (h : t.buffer n = .ok b) : described? n (readFields (n - 1 - 1)) (readFields (n - 1)) t = b.descriptors? := by
  cases Tree.kept h with
  | @arr n items kept hitems =>
    have hbelow : ∀ m < n, Agree m (readFields m) Buffered.fields? := fun m hm => hfields m (Nat.lt_succ_of_lt hm)
    rw [described?, Nat.add_sub_cancel, descriptors_kept hbelow hitems, Buffered.descriptors?]
  | @obj n members bs hmembers =>
    rw [described?, Nat.add_sub_cancel, descriptor_kept (hfields n n.lt_succ_self) hmembers, Buffered.descriptors?]
    exact fun items stop h => Tree.noConfusion h
  | _ => rfl

theorem agree_descriptors (n : Nat) : Agree n (readDescriptors n) Buffered.descriptors? := by
  intro t b h
  rw [readDescriptors, h]
  dsimp only [orFault, bind, Except.bind]
  cases b.descriptors? <;> rfl

/-! ## One field -/

/-- A slot of the text and a filler from the buffer put in the same, under the same key. -/
structure Filler.Agrees (n : Nat) (slot : Slot WrittenField) (filler : Buffered.Filler) : Prop where
  key : slot.key = filler.1
  presence : slot.presence ≠ .defaulted
  fill : ∀ w t b, Tree.buffer n t = .ok b →
    (slot.fill w t).toOption = filler.2 w ⟨b, fun _ => b.fields?, fun _ => b.descriptors?⟩

theorem agrees_nullable {α : Type} {read : Reader α} (read? : Buffered.Opened → Option α)
    (h : Agree n read fun b => read? ⟨b, fun _ => b.fields?, fun _ => b.descriptors?⟩) (key : String)
    (store : WrittenField → Option α → WrittenField) :
    Filler.Agrees n (nullableSlot key read store) (Buffered.nullableFiller key read? store) where
  key := rfl
  presence := by simp [nullableSlot]
  fill := by
    intro w t b hb
    refine (toOption_map _ _).trans (congrArg (Option.map (store w)) ?_)
    rw [h.nullable t b hb]
    cases b <;> rfl

theorem find?_forall₂ {α β : Type} {R : α → β → Prop} {p : α → Bool} {q : β → Bool} (hpq : ∀ a b, R a b → p a = q b)
    {as : List α} {bs : List β} (h : List.Forall₂ R as bs) :
    as.find? p = none ∧ bs.find? q = none ∨ ∃ a b, as.find? p = some a ∧ bs.find? q = some b ∧ R a b := by
  induction h with
  | nil => exact .inl ⟨rfl, rfl⟩
  | @cons a b as bs hab _ ih =>
    cases hp : p a with
    | true => exact .inr ⟨a, b, by simp [hp], by simp [← hpq a b hab, hp], hab⟩
    | false => simpa [List.find?_cons, hp, ← hpq a b hab] using ih

section
variable {slots : List (Slot WrittenField)} {fillers : List Buffered.Filler}

theorem fieldShape_agrees (hfields : Agree n (readFields n) Buffered.fields?) :
    List.Forall₂ (Filler.Agrees n) (fieldShape n (readFields n) (readDescriptors n)).slots Buffered.fieldFillers := by
  have htype : Filler.Agrees n ⟨"type", .required, fun w t => ({ w with type := · }) <$> readString t⟩
      ("type", fun w v => ({ w with type := · }) <$> v.string?) :=
    ⟨rfl, by simp, fun w t b hb => (toOption_map _ _).trans (congrArg _ (agree_string t b hb))⟩
  have hstring := agrees_nullable Buffered.Opened.string? (agree_string (n := n))
  have hbool := agrees_nullable (·.value.bool?) (agree_bool (n := n))
  have hjson := agrees_nullable Buffered.Opened.json? (agree_json (n := n))
  have hstrings := agrees_nullable (·.value.strings?) (agree_strings (n := n))
  have hinner := agrees_nullable (·.fields ()) hfields
  have hof := agrees_nullable (·.descriptors ()) (agree_descriptors n)
  exact .cons htype (.cons (hstring _ _) (.cons (hstring _ _) (.cons (hjson _ _) (.cons (hbool _ _) (.cons (hjson _ _)
    (.cons (hbool _ _) (.cons (hstrings _ _) (.cons (hstring _ _) (.cons (hstring _ _) (.cons (hinner _ _) (.cons (hof _ _)
      (.cons (hstring _ _) .nil))))))))))))

theorem fillMembers_kept {shape : Shape WrittenField} (hslots : List.Forall₂ (Filler.Agrees n) shape.slots Buffered.fieldFillers)
    {members : List (Tree × Tree)} {bs : List (String × Buffered)} (h : List.Forall₂ (Tree.KeptAs n) members bs)
    (read : List String × WrittenField) :
    (members.foldlM shape.fillMember read).toOption = Buffered.fillMembers? read bs := by
  induction h generalizing read with
  | nil => rfl
  | @cons m b members bs hm _ ih =>
    obtain ⟨_, value⟩ := m
    obtain ⟨key, b⟩ := b
    obtain ⟨rfl, hb⟩ : _ = Tree.str key ∧ value.buffer n = .ok b := hm
    obtain ⟨keys, w⟩ := read
    rw [List.foldlM_cons, toOption_bind, Buffered.fillMembers?]
    rcases find?_forall₂ (fun slot filler hslot => by rw [hslot.key]) hslots (p := (·.key = key)) (q := (·.1 = key)) with
      ⟨hslot, hfiller⟩ | ⟨slot, filler, hslot, hfiller, hagrees⟩
    · rw [Shape.fillMember_unknown hslot, hfiller, (Tree.whole_of_buffer hb).pass]
      exact ih (keys, w)
    · rw [Shape.fillMember_known hslot, hfiller]
      dsimp only
      split
      · rfl
      · rw [toOption_bind, hagrees.fill w value b hb]
        cases filler.2 w ⟨b, fun _ => b.fields?, fun _ => b.descriptors?⟩ with
        | none => rfl
        | some w => exact ih (key :: keys, w)

theorem fillItems_kept {shape : Shape WrittenField} (hslots : List.Forall₂ (Filler.Agrees n) slots fillers)
    {items : List Tree} {bs : List Buffered} (h : List.Forall₂ (fun t b => Tree.buffer n t = .ok b) items bs)
    (count : Nat) (w : WrittenField) :
    (shape.readArray none slots count w items).toOption = Buffered.fillItems? fillers w bs := by
  induction hslots generalizing count w items bs with
  | nil => cases h <;> rfl
  | @cons slot filler slots fillers hslot _ ih =>
    cases h with
    | nil =>
      rw [Shape.readArray, if_neg hslot.presence]
      rfl
    | cons hb hrest =>
      rw [Shape.readArray, toOption_bind, hslot.fill _ _ _ hb, Buffered.fillItems?]
      exact congrArg _ (funext fun w => ih hrest _ w)

end

theorem agree_field (hfields : Agree n (readFields n) Buffered.fields?) : Agree (n + 1) (readField (n + 1)) Buffered.field? := by
  intro t b h
  have hslots := fieldShape_agrees hfields
  rw [readField]
  cases Tree.kept h with
  | arr hitems =>
    rw [readRecord, if_neg (Nat.succ_ne_zero n), Buffered.field?]
    exact fillItems_kept hslots hitems 0 {}
  | @obj _ members bs hmembers =>
    rw [readRecord, if_neg (Nat.succ_ne_zero n), Buffered.field?, Shape.readObject, toOption_bind, fillMembers_kept hslots hmembers]
    refine congrArg _ (funext fun read => ?_)
    obtain ⟨keys, w⟩ := read
    -- only the type is required
    by_cases htype : "type" ∈ keys
    · simp [fieldShape, nullableSlot, htype, orFault, Tree.unlessStop, bind, Except.bind, Except.toOption, pure, Except.pure]
    · simp [fieldShape, nullableSlot, htype, orFault, Tree.unlessStop, bind, Except.bind, Except.toOption]
  | _ => rfl

/-- Without a bracket nothing is kept that is a field. -/
theorem agree_field_zero : Agree 0 (readField 0) Buffered.field? := by
  intro t b h
  cases Tree.kept h <;> rfl

/-! ## All fields -/

theorem entries_kept (hfield : Agree n (readField n) Buffered.field?) {members : List (Tree × Tree)}
    {bs : List (String × Buffered)} (h : List.Forall₂ (Tree.KeptAs n) members bs) :
    (readEntries (readField n) members).toOption = Buffered.entries? bs := by
  induction h with
  | nil => rfl
  | @cons m b members bs hm _ ih =>
    obtain ⟨_, value⟩ := m
    obtain ⟨key, b⟩ := b
    obtain ⟨rfl, hb⟩ : _ = Tree.str key ∧ value.buffer n = .ok b := hm
    have hmember : readEntries (readField n) ((.str key, value) :: members) =
        readField n value >>= fun w => readEntries (readField n) members >>= fun rest => .ok ((key, w) :: rest) := rfl
    rw [hmember, toOption_bind, hfield value b hb, Buffered.entries?]
    refine congrArg _ (funext fun w => ?_)
    rw [toOption_bind, ih]
    rfl

/-- What is read of a text is what is read of it once it has been kept. -/
theorem agree_fields (n : Nat) : Agree n (readFields n) Buffered.fields? := by
  -- a bracket for the fields and one for each field: what stands in a field is kept with two brackets less
  induction n using Nat.strong_induction_on with
  | _ n ih =>
    intro t b h
    cases Tree.kept h with
    | @obj n members bs hmembers =>
      have hfield : Agree n (readField n) Buffered.field? := by
        cases n with
        | zero => exact agree_field_zero
        | succ n => exact agree_field (ih n (by omega))
      have hread : readFields (n + 1) (.obj members none) = readEntries (readField n) members >>= toFields := by
        change (readDefinitions (n + 1) (readField n) (.obj members none) >>= toFields) = _
        rw [readDefinitions, if_neg (Nat.succ_ne_zero n)]
        cases readEntries (readField n) members <;> rfl
      rw [hread, toOption_bind, entries_kept hfield hmembers, Buffered.fields?]
      rfl
    | arr => rfl
    | _ => cases n <;> rfl

/-- A descriptor in an array has two brackets around its values, one that stands alone has one. -/
theorem readDescriptors_eq (levels : Nat) (t : Tree) :
    readDescriptors levels t = describe levels (readFields (levels - 1 - 1)) (readFields (levels - 1)) t := by
  rw [describe_eq, readDescriptors, readJson, Tree.keep_eq]
  cases h : t.buffer levels with
  | error f => rfl
  | ok b =>
    rw [described_kept (fun m _ => agree_fields m) h]
    rfl

end TypedContent

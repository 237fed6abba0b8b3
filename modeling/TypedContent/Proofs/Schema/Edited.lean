import Mathlib
import TypedContent.Proofs.Reading.Descriptor
import TypedContent.Proofs.Reading.Members
import TypedContent.Proofs.Schema.Written

/-!
# Edits that a schema does not show

The schema, its definitions, their fields and the descriptors of list items are records. Wherever a
record stands in a text, its members may be put in another order, and members that it does not know
may be put in: the text is read as the same schema. The order of definitions and of fields stays, as
theirs are names of the writer's choice.
-/

namespace TypedContent

/-! ## Where records stand -/

inductive Record where
  | schema
  | document
  | object
  | computed
  | field
  | descriptor

/-- Where an edit may be made: in a record, in an object of named records, or in the descriptors
of a list field, which are one or an array of them. -/
inductive Site where
  | record (r : Record)
  | definitions (r : Record)
  | descriptors

namespace Record

/-- The members a record has slots for, in the order of its array form. -/
def slots : Record → List String
  | .schema => ["documentTypes", "objectTypes"]
  | .document => ["label", "description", "labelField", "fileType", "isSingleton", "fields", "computedFields"]
  | .object => ["label", "description", "labelField", "fields"]
  | .computed => ["description", "type", "resolve"]
  | .field =>
    ["type", "label", "description", "default", "required", "const", "hidden", "options", "object", "document", "fields",
      "of", "typeField"]
  | .descriptor => ["labelField", "type"]

/-- The member that an item of the type has besides. -/
def payloadKey? : String → Option String
  | "object" => some "object"
  | "enum" => some "options"
  | "inline_object" => some "fields"
  | _ => none

/-- The keys that a record knows. Which they are of a descriptor depends on its type. -/
def keys (members : List (Tree × Tree)) : Record → List String
  | .descriptor =>
    descriptor.slots ++ (valuesOf "type" members).filterMap fun t => (descriptorType? t).bind payloadKey?
  | r => r.slots

/-- The members that have records inside. -/
def children : Record → List (String × Site)
  | .schema => [("documentTypes", .definitions .document), ("objectTypes", .definitions .object)]
  | .document => [("fields", .definitions .field), ("computedFields", .definitions .computed)]
  | .object => [("fields", .definitions .field)]
  | .computed => []
  | .field => [("fields", .definitions .field), ("of", .descriptors)]
  | .descriptor => [("fields", .definitions .field)]

end Record

/-- One edit: of a record, or of one inside. A record may also be written as an array. -/
inductive Edit : Site → Tree → Tree → Prop
  | permute {r members members'} : members.Perm members' → Edit (.record r) (.obj members none) (.obj members' none)
  | insert {r before after key v} : key ∉ r.keys (before ++ after) → v.Whole →
    Edit (.record r) (.obj (before ++ after) none) (.obj (before ++ (.str key, v) :: after) none)
  | member {r before after key v v' site} : (key, site) ∈ r.children → Edit site v v' →
    Edit (.record r) (.obj (before ++ (.str key, v) :: after) none) (.obj (before ++ (.str key, v') :: after) none)
  | element {r before after key v v' site} : r.slots[before.length]? = some key → (key, site) ∈ r.children →
    Edit site v v' → Edit (.record r) (.arr (before ++ v :: after) none) (.arr (before ++ v' :: after) none)
  | definition {r before after name v v'} : Edit (.record r) v v' →
    Edit (.definitions r) (.obj (before ++ (.str name, v) :: after) none) (.obj (before ++ (.str name, v') :: after) none)
  | item {before after v v'} : Edit (.record .descriptor) v v' →
    Edit .descriptors (.arr (before ++ v :: after) none) (.arr (before ++ v' :: after) none)
  | alone {members members'} : Edit (.record .descriptor) (.obj members none) (.obj members' none) →
    Edit .descriptors (.obj members none) (.obj members' none)

/-- The tree of a schema after any number of edits. -/
def Edited : Tree → Tree → Prop := Relation.ReflTransGen (Edit (.record .schema))

/-! ## What an edit leaves -/

def Tree.Bracketed : Tree → Prop
  | .arr _ _ => True
  | .obj _ _ => True
  | _ => False

namespace Edit

variable {site : Site} {t t' : Tree}

theorem bracketed (h : Edit site t t') : t.Bracketed ∧ t'.Bracketed := by
  cases h <;> exact ⟨trivial, trivial⟩

theorem whole (h : Edit site t t') : t.Whole → t'.Whole := by
  induction h with
  | permute hperm =>
    simp only [Tree.whole_obj, true_and]
    exact fun ⟨hkeys, hall⟩ => ⟨fun m hm => hkeys m (hperm.mem_iff.mpr hm), fun m hm => hall m (hperm.mem_iff.mpr hm)⟩
  | insert _ hv =>
    simp only [Tree.whole_obj, true_and, List.forall_mem_append, List.forall_mem_cons]
    exact fun ⟨hkeys, hall⟩ => ⟨⟨hkeys.1, ⟨_, rfl⟩, hkeys.2⟩, hall.1, hv, hall.2⟩
  | member _ _ ih | definition _ ih =>
    simp only [Tree.whole_obj, true_and, List.forall_mem_append, List.forall_mem_cons]
    exact fun ⟨hkeys, hbefore, hv, hafter⟩ => ⟨hkeys, hbefore, ih hv, hafter⟩
  | element _ _ _ ih | item _ ih =>
    simp only [Tree.whole_arr, true_and, List.forall_mem_append, List.forall_mem_cons]
    exact fun ⟨hbefore, hv, hafter⟩ => ⟨hbefore, ih hv, hafter⟩
  | alone _ ih => exact ih

/-- An edit takes no bracket away. -/
theorem nested (h : Edit site t t') : ∀ {n}, t'.Nested n → t.Nested n := by
  induction h with
  | permute hperm =>
    simp only [Tree.nested_obj]
    exact fun ⟨m, hn, hall⟩ => ⟨m, hn, fun x hx => hall x (hperm.mem_iff.mp hx)⟩
  | insert _ _ =>
    simp only [Tree.nested_obj, List.forall_mem_append, List.forall_mem_cons]
    exact fun ⟨m, hn, hbefore, _, hafter⟩ => ⟨m, hn, hbefore, hafter⟩
  | member _ _ ih | definition _ ih =>
    simp only [Tree.nested_obj, List.forall_mem_append, List.forall_mem_cons]
    exact fun ⟨m, hn, hbefore, hv, hafter⟩ => ⟨m, hn, hbefore, ih hv, hafter⟩
  | element _ _ _ ih | item _ ih =>
    simp only [Tree.nested_arr, List.forall_mem_append, List.forall_mem_cons]
    exact fun ⟨m, hn, hbefore, hv, hafter⟩ => ⟨m, hn, hbefore, ih hv, hafter⟩
  | alone _ ih => exact ih

end Edit

/-! ## How records are read -/

def ofOption {α : Type} : Option α → Except ReadError α
  | some a => .ok a
  | none => malformed

theorem ofOption_eq_ok {α : Type} {x : Option α} {a : α} : ofOption x = .ok a ↔ x = some a := by
  cases x <;> simp [ofOption, malformed]

abbrev Record.Result : Record → Type
  | .schema => WrittenSchema
  | .document => DocumentType
  | .object => ObjectType
  | .computed => WrittenComputed
  | .field => WrittenField
  | .descriptor => SourceItem

def Record.read : (r : Record) → Nat → Reader r.Result
  | .schema, levels => readRecord levels (schemaShape (levels - 1))
  | .document, levels => readRecord levels (documentShape (levels - 1))
  | .object, levels => readRecord levels (objectShape (levels - 1))
  | .computed, levels => readRecord levels (computedShape (levels - 1))
  | .field, levels =>
    readRecord levels (fieldShape (levels - 1) (readFields (levels - 1)) (readDescriptors (levels - 1)))
  | .descriptor, levels => fun t => ofOption (readDescriptor levels (readFields (levels - 1)) t)

abbrev Site.Result : Site → Type
  | .record r => r.Result
  | .definitions r => List (String × r.Result)
  | .descriptors => Descriptors

def Site.read : (site : Site) → Nat → Reader site.Result
  | .record r, levels => r.read levels
  | .definitions r, levels => readDefinitions levels (r.read (levels - 1))
  | .descriptors, levels => readDescriptors levels

theorem readField_eq (levels : Nat) (t : Tree) : readField levels t = Record.field.read levels t := by
  cases levels with
  | zero =>
    rw [readField, Record.read]
    cases t with
    | arr items stop => rw [readRecord, readRecord, if_pos rfl, if_pos rfl]
    | obj members stop => rw [readRecord, readRecord, if_pos rfl, if_pos rfl]
    | _ => rfl
  | succ levels => rw [readField, Record.read, Nat.add_sub_cancel]

theorem readFields_eq (levels : Nat) (t : Tree) :
    readFields levels t = (Site.definitions .field).read levels t >>= toFields := by
  rw [Site.read, ← funext (readField_eq (levels - 1))]
  cases levels with
  | zero =>
    rw [readFields]
    cases t with
    | obj members stop => simp only [readDefinitions, if_true]
    | _ => rfl
  | succ levels => rw [readFields, Nat.add_sub_cancel]

theorem readDescriptors_eq_ok {levels : Nat} {t : Tree} {d : Descriptors} : readDescriptors levels t = .ok d ↔
    (∃ v, t.keep levels = .ok v) ∧
      ((∃ items stop many, t = .arr items stop ∧ d = .many many ∧
          List.Forall₂ (fun t item => Record.descriptor.read (levels - 1) t = .ok item) items many) ∨
        ∃ members stop item, t = .obj members stop ∧ d = .one item ∧ Record.descriptor.read levels t = .ok item) := by
  simp only [Record.read, ofOption_eq_ok]
  rw [readDescriptors_eq]
  exact describe_eq_ok

/-! ## Descriptors -/

def valueOf? (key : String) : Tree × Tree → Option Tree
  | (.str k, value) => if k = key then some value else none
  | _ => none

theorem valuesOf_eq_filterMap (key : String) (members : List (Tree × Tree)) :
    valuesOf key members = members.filterMap (valueOf? key) := by
  induction members with
  | nil => rfl
  | cons m rest ih =>
    obtain ⟨t, v⟩ := m
    cases t with
    | str k => by_cases h : k = key <;> simp [valuesOf, valueOf?, h, ih]
    | _ => exact ih

/-- A key with at most one value has the same in both. -/
def Alike (members members' : List (Tree × Tree)) (key : String) : Prop :=
  (valuesOf key members).length ≤ 1 → valuesOf key members' = valuesOf key members

theorem alike_of_perm {members members' : List (Tree × Tree)} (hperm : members.Perm members') (key : String) :
    Alike members members' key := by
  intro hone
  have hvalues : (valuesOf key members).Perm (valuesOf key members') := by
    rw [valuesOf_eq_filterMap, valuesOf_eq_filterMap]
    exact hperm.filterMap _
  cases h : valuesOf key members with
  | nil =>
    rw [h] at hvalues
    exact List.nil_perm.mp hvalues
  | cons t rest =>
    rw [h] at hone hvalues
    obtain rfl : rest = [] := List.eq_nil_of_length_eq_zero (Nat.le_zero.mp (Nat.le_of_succ_le_succ hone))
    exact (List.singleton_perm.mp hvalues).symm

/-- A member of another key makes no difference to the values of a key. -/
theorem valuesOf_middle {before after : List (Tree × Tree)} {key k : String} (h : k ≠ key) (v : Tree) :
    valuesOf key (before ++ (.str k, v) :: after) = valuesOf key (before ++ after) := by
  simp [valuesOf_eq_filterMap, valueOf?, h]

theorem readOnce_alike {α : Type} {read : Reader α} {key : String} {members members' : List (Tree × Tree)}
    (h : Alike members members' key) {a : α} (ha : readOnce read key members = some a) :
    readOnce read key members' = some a := by
  rw [readOnce_eq_some] at ha ⊢
  obtain ⟨t, ht, hread⟩ := ha
  exact ⟨t, by rw [h (by simp [ht]), ht], hread⟩

theorem readOptional_alike {α : Type} {read : Reader α} {key : String} {members members' : List (Tree × Tree)}
    (h : Alike members members' key) {a : Option α} (ha : readOptional read key members = some a) :
    readOptional read key members' = some a := by
  unfold readOptional at ha ⊢
  split at ha
  next hnil => rw [h (by simp [hnil]), hnil]; exact ha
  next t ht => rw [h (by simp [ht]), ht]; exact ha
  · cases ha

theorem map_eq_some_of {α β : Type} {x y : Option α} (h : ∀ a, x = some a → y = some a) {f : α → β} {b : β}
    (hx : f <$> x = some b) : f <$> y = some b := by
  obtain ⟨a, ha, hb⟩ := Option.map_eq_some_iff.mp hx
  exact Option.map_eq_some_iff.mpr ⟨a, h a ha, hb⟩

/-- A descriptor is read from the values of the keys that it knows. -/
theorem descriptor_alike {levels : Nat} {members members' : List (Tree × Tree)} {stop stop' : Option Fault}
    {item : SourceItem}
    (halike : ∀ key ∈ Record.descriptor.keys members, key ≠ "fields" → Alike members members' key)
    (hfields : "fields" ∈ Record.descriptor.keys members → ∀ inner,
      readOnce (readFields (levels - 1)) "fields" members = some inner →
      readOnce (readFields (levels - 1)) "fields" members' = some inner)
    (h : Record.descriptor.read levels (.obj members stop) = .ok item) :
    Record.descriptor.read levels (.obj members' stop') = .ok item := by
  rw [Record.read, ofOption_eq_ok, readDescriptor_eq_some] at h ⊢
  obtain ⟨_, _, ⟨⟩, hlabel, hkind⟩ := h
  refine ⟨members', stop', rfl, readOptional_alike (halike _ (by simp [Record.keys, Record.slots]) (by decide)) hlabel, ?_⟩
  unfold descriptorKind? at hkind ⊢
  split at hkind
  next type htype =>
    have htype' : valuesOf "type" members' = [type] := by
      rw [halike "type" (by simp [Record.keys, Record.slots]) (by decide) (by simp [htype]), htype]
    have hkeys : ∀ name, descriptorType? type = some name → ∀ key ∈ Record.payloadKey? name,
        key ∈ Record.descriptor.keys members := by
      intro name hname key hkey
      simp only [Record.keys, htype, List.filterMap_cons, hname, Option.bind_some, Option.mem_def.mp hkey]
      simp
    simp only [htype']
    -- the type is the same, so what its payload key holds decides
    split at hkind
    next hname => simpa only [hname] using hkind
    next hname => simpa only [hname] using hkind
    next hname => exact map_eq_some_of (fun _ => readOnce_alike (halike "object" (hkeys _ hname _ rfl) (by decide))) hkind
    next hname => exact map_eq_some_of (fun _ => readOnce_alike (halike "options" (hkeys _ hname _ rfl) (by decide))) hkind
    next hname => exact map_eq_some_of (hfields (hkeys _ hname _ rfl)) hkind
    · cases hkind
  · cases hkind

/-! ## Records with slots -/

namespace Shape

/-- The shape of a record: a value inside that is read the same fills its slot the same. -/
structure Follows {σ : Type} (shape : Shape σ) (r : Record) (levels : Nat) : Prop where
  lawful : shape.Lawful
  slots : shape.slots.map (·.key) = r.slots
  inside : ∀ child ∈ r.children, ∀ v v' : Tree, v.Bracketed → v'.Bracketed →
    (∀ a, child.2.read levels v = .ok a → child.2.read levels v' = .ok a) → shape.ReadsAs child.1 v v'

theorem Lawful.readsAs {σ : Type} {shape : Shape σ} (hs : shape.Lawful) {slot : Slot σ} (hm : slot ∈ shape.slots)
    {v v' : Tree} (h : ∀ value result, slot.fill value v = .ok result → slot.fill value v' = .ok result) :
    shape.ReadsAs slot.key v v' := by
  intro other hother hkey
  rwa [List.inj_on_of_nodup_map hs.nodup hother hm hkey]

theorem readNullable_bracketed {α : Type} {read : Reader α} {t : Tree} (h : t.Bracketed) :
    readNullable read t = some <$> read t := by
  cases t <;> first | rfl | cases h

section
variable {α β : Type} {read : Reader α} {store : α → β} {v v' : Tree} {b : β}

theorem map_reads (hread : ∀ a, read v = .ok a → read v' = .ok a) (h : store <$> read v = .ok b) :
    store <$> read v' = .ok b := by
  obtain ⟨a, ha, hb⟩ := map_eq_ok.mp h
  exact map_eq_ok.mpr ⟨a, hread a ha, hb⟩

theorem nullable_reads {store : Option α → β} (hv : v.Bracketed) (hv' : v'.Bracketed)
    (hread : ∀ a, read v = .ok a → read v' = .ok a) (h : store <$> readNullable read v = .ok b) :
    store <$> readNullable read v' = .ok b := by
  rw [readNullable_bracketed hv] at h
  rw [readNullable_bracketed hv']
  obtain ⟨a, ha, hb⟩ := map_eq_ok.mp h
  exact map_eq_ok.mpr ⟨a, map_reads hread ha, hb⟩

end

theorem schemaShape_follows (levels : Nat) : (schemaShape levels).Follows .schema levels where
  lawful := schemaShape_lawful levels
  slots := rfl
  inside := by
    simp only [Record.children, List.forall_mem_cons, List.not_mem_nil, false_implies, implies_true, and_true]
    refine ⟨fun v v' _ _ hread => ?_, fun v v' _ _ hread => ?_⟩
    · exact (schemaShape_lawful levels).readsAs (schemaShape_documents levels) fun w result h => map_reads hread h
    · exact (schemaShape_lawful levels).readsAs (schemaShape_objects levels) fun w result h => map_reads hread h

theorem readFields_reads {levels : Nat} {v v' : Tree}
    (h : ∀ a, (Site.definitions .field).read levels v = .ok a → (Site.definitions .field).read levels v' = .ok a)
    (fields : List SourceField) (hread : readFields levels v = .ok fields) : readFields levels v' = .ok fields := by
  rw [readFields_eq, bind_eq_ok] at hread ⊢
  obtain ⟨entries, hentries, hfields⟩ := hread
  exact ⟨entries, h entries hentries, hfields⟩

theorem readComputed_reads {levels : Nat} {v v' : Tree}
    (h : ∀ a, (Site.definitions .computed).read levels v = .ok a → (Site.definitions .computed).read levels v' = .ok a)
    (computed : List ComputedField) (hread : readComputed levels v = .ok computed) :
    readComputed levels v' = .ok computed := by
  unfold readComputed at hread ⊢
  rw [bind_eq_ok] at hread ⊢
  obtain ⟨entries, hentries, hcomputed⟩ := hread
  exact ⟨entries, h entries hentries, hcomputed⟩

theorem documentShape_follows (levels : Nat) : (documentShape levels).Follows .document levels where
  lawful := documentShape_lawful levels
  slots := rfl
  inside := by
    simp only [Record.children, List.forall_mem_cons, List.not_mem_nil, false_implies, implies_true, and_true]
    refine ⟨fun v v' _ _ hread => ?_, fun v v' _ _ hread => ?_⟩
    · exact (documentShape_lawful levels).readsAs (documentShape_fields levels)
        fun d result h => map_reads (readFields_reads hread) h
    · exact (documentShape_lawful levels).readsAs (documentShape_computed levels)
        fun d result h => map_reads (readComputed_reads hread) h

theorem objectShape_follows (levels : Nat) : (objectShape levels).Follows .object levels where
  lawful := objectShape_lawful levels
  slots := rfl
  inside := by
    simp only [Record.children, List.forall_mem_cons, List.not_mem_nil, false_implies, implies_true, and_true]
    refine fun v v' _ _ hread => ?_
    exact (objectShape_lawful levels).readsAs (objectShape_fields levels)
      fun o result h => map_reads (readFields_reads hread) h

theorem computedShape_follows (levels : Nat) : (computedShape levels).Follows .computed levels where
  lawful := computedShape_lawful levels
  slots := rfl
  inside := List.forall_mem_nil _

theorem fieldShape_follows (levels : Nat) :
    (fieldShape levels (readFields levels) (readDescriptors levels)).Follows .field levels where
  lawful := fieldShape_lawful levels _ _
  slots := rfl
  inside := by
    simp only [Record.children, List.forall_mem_cons, List.not_mem_nil, false_implies, implies_true, and_true]
    refine ⟨fun v v' hv hv' hread => ?_, fun v v' hv hv' hread => ?_⟩
    · exact (fieldShape_lawful levels _ _).readsAs (fieldShape_fields levels _ _)
        fun w result h => nullable_reads hv hv' (readFields_reads hread) h
    · exact (fieldShape_lawful levels _ _).readsAs (fieldShape_of levels _ _)
        fun w result h => nullable_reads hv hv' hread h

end Shape

theorem Record.follows (r : Record) (hr : r ≠ .descriptor) (levels : Nat) :
    ∃ shape : Shape r.Result, r.read levels = readRecord levels shape ∧ shape.Follows r (levels - 1) := by
  cases r with
  | schema => exact ⟨_, rfl, Shape.schemaShape_follows _⟩
  | document => exact ⟨_, rfl, Shape.documentShape_follows _⟩
  | object => exact ⟨_, rfl, Shape.objectShape_follows _⟩
  | computed => exact ⟨_, rfl, Shape.computedShape_follows _⟩
  | field => exact ⟨_, rfl, Shape.fieldShape_follows _⟩
  | descriptor => exact absurd rfl hr

theorem Record.child_slot (r : Record) (hr : r ≠ .descriptor) : ∀ child ∈ r.children, child.1 ∈ r.slots := by
  cases r with
  | descriptor => exact absurd rfl hr
  | _ => simp [children, slots]

/-! ## An edit is not seen -/

theorem readRecord_obj {σ : Type} {levels : Nat} {shape : Shape σ} {members : List (Tree × Tree)} {stop : Option Fault}
    {result : σ} : readRecord levels shape (.obj members stop) = .ok result ↔
      levels ≠ 0 ∧ shape.readObject members stop = .ok result := by
  rw [readRecord]
  split <;> simp_all [malformed]

theorem readRecord_arr {σ : Type} {levels : Nat} {shape : Shape σ} {items : List Tree} {stop : Option Fault}
    {result : σ} : readRecord levels shape (.arr items stop) = .ok result ↔
      levels ≠ 0 ∧ shape.readArray stop shape.slots 0 shape.empty items = .ok result := by
  rw [readRecord]
  split <;> simp_all [malformed]

section
variable {r : Record} {levels : Nat} {result : r.Result}

theorem Record.read_permute {members members' : List (Tree × Tree)} (hperm : members.Perm members')
    (h : r.read levels (.obj members none) = .ok result) : r.read levels (.obj members' none) = .ok result := by
  by_cases hr : r = .descriptor
  · subst hr
    exact descriptor_alike (fun key _ _ => alike_of_perm hperm key)
      (fun _ _ => readOnce_alike (alike_of_perm hperm "fields")) h
  · obtain ⟨shape, hread, hshape⟩ := r.follows hr levels
    rw [hread, readRecord_obj] at h ⊢
    exact ⟨h.1, hshape.lawful.readObject_perm hperm h.2⟩

theorem Record.read_insert {before after : List (Tree × Tree)} {key : String} {v : Tree}
    (hkey : key ∉ r.keys (before ++ after)) (hv : v.Whole) (h : r.read levels (.obj (before ++ after) none) = .ok result) :
    r.read levels (.obj (before ++ (.str key, v) :: after) none) = .ok result := by
  by_cases hr : r = .descriptor
  · subst hr
    have halike : ∀ k ∈ Record.descriptor.keys (before ++ after),
        Alike (before ++ after) (before ++ (.str key, v) :: after) k := fun k hk _ => valuesOf_middle (by grind) v
    exact descriptor_alike (fun k hk _ => halike k hk) (fun hf _ => readOnce_alike (halike _ hf)) h
  · obtain ⟨shape, hread, hshape⟩ := r.follows hr levels
    rw [hread, readRecord_obj] at h ⊢
    have hslots : key ∉ shape.slots.map (·.key) := by
      rw [hshape.slots]
      cases r <;> first | exact hkey | exact absurd rfl hr
    exact ⟨h.1, hshape.lawful.readObject_insert hslots hv.pass h.2⟩

theorem Record.read_member {before after : List (Tree × Tree)} {child : String × Site} (hchild : child ∈ r.children)
    {v v' : Tree} (hv : v.Bracketed) (hv' : v'.Bracketed)
    (hread : ∀ a, child.2.read (levels - 1) v = .ok a → child.2.read (levels - 1) v' = .ok a)
    (h : r.read levels (.obj (before ++ (.str child.1, v) :: after) none) = .ok result) :
    r.read levels (.obj (before ++ (.str child.1, v') :: after) none) = .ok result := by
  by_cases hr : r = .descriptor
  · subst hr
    obtain rfl := List.mem_singleton.mp hchild
    refine descriptor_alike (fun key _ hne _ => ?_) (fun _ inner hinner => ?_) h
    · rw [valuesOf_middle hne.symm, valuesOf_middle hne.symm]
    · obtain ⟨t, ht, hinner⟩ := readOnce_eq_some.mp hinner
      rw [valuesOf_eq_filterMap, List.filterMap_append] at ht
      obtain ⟨hbefore, hafter⟩ | ⟨-, hafter⟩ := List.append_eq_singleton_iff.mp ht
      · obtain ⟨rfl, hrest⟩ := List.cons_eq_cons.mp hafter
        refine readOnce_eq_some.mpr ⟨v', ?_, Shape.readFields_reads hread inner hinner⟩
        rw [valuesOf_eq_filterMap, List.filterMap_append, hbefore]
        exact congrArg (v' :: ·) hrest
      · cases hafter
  · obtain ⟨shape, hrecord, hshape⟩ := r.follows hr levels
    rw [hrecord, readRecord_obj] at h ⊢
    have hkey : child.1 ∈ shape.slots.map (·.key) := hshape.slots ▸ r.child_slot hr child hchild
    exact ⟨h.1, Shape.readObject_member hkey (hshape.inside child hchild v v' hv hv' hread) h.2⟩

theorem Record.read_element {before after : List Tree} {child : String × Site}
    (hslot : r.slots[before.length]? = some child.1) (hchild : child ∈ r.children) {v v' : Tree} (hv : v.Bracketed)
    (hv' : v'.Bracketed) (hread : ∀ a, child.2.read (levels - 1) v = .ok a → child.2.read (levels - 1) v' = .ok a)
    (h : r.read levels (.arr (before ++ v :: after) none) = .ok result) :
    r.read levels (.arr (before ++ v' :: after) none) = .ok result := by
  by_cases hr : r = .descriptor
  · subst hr
    cases h
  · obtain ⟨shape, hrecord, hshape⟩ := r.follows hr levels
    rw [hrecord, readRecord_arr] at h ⊢
    refine ⟨h.1, Shape.readArray_element (List.Subset.refl _) ?_ (hshape.inside child hchild v v' hv hv' hread) h.2⟩
    rw [hshape.slots]
    exact hslot

end

theorem forall₂_middle {α β : Type} {R : α → β → Prop} {before after : List α} {a : α} {bs : List β} :
    List.Forall₂ R (before ++ a :: after) bs ↔
      ∃ bs₁ b bs₂, bs = bs₁ ++ b :: bs₂ ∧ List.Forall₂ R before bs₁ ∧ R a b ∧ List.Forall₂ R after bs₂ := by
  constructor
  · intro h
    induction before generalizing bs with
    | nil =>
      obtain ⟨b, bs₂, hb, hafter, rfl⟩ := List.forall₂_cons_left_iff.mp h
      exact ⟨[], b, bs₂, rfl, .nil, hb, hafter⟩
    | cons x before ih =>
      obtain ⟨y, bs, hy, hrest, rfl⟩ := List.forall₂_cons_left_iff.mp h
      obtain ⟨bs₁, b, bs₂, rfl, hbefore, hb, hafter⟩ := ih hrest
      exact ⟨y :: bs₁, b, bs₂, rfl, .cons hy hbefore, hb, hafter⟩
  · rintro ⟨bs₁, b, bs₂, rfl, hbefore, hb, hafter⟩
    exact List.rel_append hbefore (.cons hb hafter)

theorem forall₂_replace {α β : Type} {R : α → β → Prop} {before after : List α} {a a' : α} {bs : List β}
    (ha : ∀ b, R a b → R a' b) (h : List.Forall₂ R (before ++ a :: after) bs) :
    List.Forall₂ R (before ++ a' :: after) bs := by
  obtain ⟨bs₁, b, bs₂, rfl, hbefore, hb, hafter⟩ := forall₂_middle.mp h
  exact forall₂_middle.mpr ⟨bs₁, b, bs₂, rfl, hbefore, ha b hb, hafter⟩

/-- What is edited is read as before. -/
theorem Edit.read {site : Site} {t t' : Tree} (h : Edit site t t') : ∀ {levels : Nat} {result : site.Result},
    t'.Nested levels → site.read levels t = .ok result → site.read levels t' = .ok result := by
  induction h with
  | permute hperm => exact fun _ hread => Record.read_permute hperm hread
  | insert hkey hv => exact fun _ hread => Record.read_insert hkey hv hread
  | member hchild hedit ih =>
    exact fun hn hread => Record.read_member hchild hedit.bracketed.1 hedit.bracketed.2 (fun a => ih hn.of_member) hread
  | element hslot hchild hedit ih =>
    exact fun hn hread =>
      Record.read_element hslot hchild hedit.bracketed.1 hedit.bracketed.2 (fun a => ih hn.of_item) hread
  | definition hedit ih =>
    intro levels result hn hread
    rw [Site.read, readDefinitions_eq_ok] at hread ⊢
    obtain ⟨hlevels, _, ⟨⟩, hentries⟩ := hread
    refine ⟨hlevels, _, rfl, forall₂_replace ?_ hentries⟩
    exact fun e he => ⟨he.1, ih hn.of_member he.2⟩
  | item hedit ih =>
    intro levels result hn hread
    rw [Site.read, readDescriptors_eq_ok] at hread ⊢
    obtain ⟨hkept, ⟨_, _, many, ⟨⟩, rfl, hitems⟩ | ⟨_, _, _, ⟨⟩, -⟩⟩ := hread
    have hwhole := (Edit.item hedit).whole (Tree.keep_ok_iff.mp hkept).1
    have hitems' := forall₂_replace (fun item h => ih hn.of_item h) hitems
    exact ⟨Tree.keep_ok_iff.mpr ⟨hwhole, hn⟩, .inl ⟨_, _, many, rfl, rfl, hitems'⟩⟩
  | alone hedit ih =>
    intro levels result hn hread
    rw [Site.read, readDescriptors_eq_ok] at hread ⊢
    obtain ⟨hkept, ⟨_, _, _, ⟨⟩, -⟩ | ⟨_, _, item, ⟨⟩, rfl, hitem⟩⟩ := hread
    refine ⟨Tree.keep_ok_iff.mpr ⟨?_, hn⟩, .inr ⟨_, _, item, rfl, rfl, ih hn hitem⟩⟩
    exact hedit.whole (Tree.keep_ok_iff.mp hkept).1

/-- Whatever is edited, the schema is read as before. -/
theorem Edited.readSchema {t t' : Tree} (h : Edited t t') {levels : Nat} (hn : t'.Nested levels) {s : Schema}
    (hread : readSchema levels t = .ok s) : readSchema levels t' = .ok s := by
  induction h with
  | refl => exact hread
  | tail _ hedit ih =>
    have hbefore := ih (hedit.nested hn)
    unfold TypedContent.readSchema at hbefore ⊢
    obtain ⟨w, hw, hs⟩ := bind_eq_ok.mp hbefore
    exact bind_eq_ok.mpr ⟨w, hedit.read hn hw, hs⟩

namespace Schema

/-- The text of a schema writes one tree, and whatever text writes that tree after edits is the text
of the same schema. -/
theorem ofText_edited (text : String) (s : Schema) (hread : ofText text = .ok s) :
    (∃! t : Tree, t.Writes text.toList) ∧ ∀ (t t' : Tree) (text' : String), t.Writes text.toList → Edited t t' →
      t'.Nested 127 → t'.Writes text'.toList → ofText text' = .ok s := by
  obtain ⟨t, ht, htree⟩ := readText_writes.mp hread
  refine ⟨⟨t, ht, fun u hu => hu.unique ht⟩, fun u t' text' hu hedited hn ht' => ?_⟩
  obtain rfl := hu.unique ht
  exact readText_writes.mpr ⟨t', ht', hedited.readSchema hn htree⟩

def deckLabel : String × Json := ("label", .str "A deck")

/-- The fields of a deck, with more members of its one descriptor. -/
def deckFields (more : List (String × Json)) : String × Json :=
  ("fields", .obj [("cards", .obj [("type", .str "list"),
    ("of", .obj (more ++ [("type", .str "enum"), ("options", .arr [.str "ace"])]))])])

def deckTypes (members : List (String × Json)) : String × Json := ("documentTypes", .obj [("Deck", .obj members)])

def deckVersion : String × Json := ("version", .num (.int 2))

def deckHint : String × Json := ("hint", .obj [("object", .null)])

def deckWritten : Json := .obj [deckTypes [deckLabel, deckFields []]]

/-- With a version put in, the label put last, and a hint put into the descriptor. -/
def deckEdited : Json := .obj [deckVersion, deckTypes [deckFields [deckHint], deckLabel]]

theorem deck_edited : Edited deckWritten.tree deckEdited.tree := by
  have hversion : Edit (.record .schema) deckWritten.tree
      (Json.obj [deckVersion, deckTypes [deckLabel, deckFields []]]).tree :=
    @Edit.insert .schema [] _ "version" (.num (.int 2)) (by decide) .num
  have hlabel : Edit (.definitions .document) (deckTypes [deckLabel, deckFields []]).2.tree
      (deckTypes [deckFields [], deckLabel]).2.tree :=
    @Edit.definition .document [] [] "Deck" _ _ (.permute (.swap _ _ []))
  have hcards : Edit (.definitions .field) (deckFields []).2.tree (deckFields [deckHint]).2.tree := by
    refine @Edit.definition .field [] [] "cards" _ _
      (@Edit.member .field [(.str "type", .str "list")] [] "of" _ _ .descriptors (by simp [Record.children]) (.alone ?_))
    have hhint : deckHint.2.tree.Whole := Tree.whole_obj.mpr (by simp [Json.memberTrees, Json.tree, Tree.Whole.null])
    exact @Edit.insert .descriptor [] _ "hint" _ (by decide) hhint
  have hfields : Edit (.definitions .document) (deckTypes [deckFields [], deckLabel]).2.tree
      (deckTypes [deckFields [deckHint], deckLabel]).2.tree :=
    @Edit.definition .document [] [] "Deck" _ _
      (@Edit.member .document [] [(.str "label", .str "A deck")] "fields" _ _ _ List.mem_cons_self hcards)
  have hinside : ∀ {t t'}, Edit (.definitions .document) t t' → Edit (.record .schema)
      (.obj [(.str "version", .num (.int 2)), (.str "documentTypes", t)] none)
      (.obj [(.str "version", .num (.int 2)), (.str "documentTypes", t')] none) :=
    fun h => @Edit.member .schema [(.str "version", .num (.int 2))] [] "documentTypes" _ _ _ List.mem_cons_self h
  exact ((Relation.ReflTransGen.single hversion).tail (hinside hlabel)).tail (hinside hfields)

theorem deck_readAlike : ∃ s, ofText deckWritten.pretty = .ok s ∧ ofText deckEdited.compact = .ok s := by
  have hlossless : deckWritten.Lossless ∧ deckEdited.Lossless := by
    simp [deckWritten, deckEdited, deckTypes, deckLabel, deckFields, deckVersion, deckHint, Json.lossless_obj,
      Json.lossless_arr, Json.lossless_num, Json.Lossless.str, Json.Lossless.null, Json.Exact]
  have hwritten : ∃ s, readSchema 127 deckWritten.tree = .ok s := ⟨_, by rfl⟩
  obtain ⟨s, hs⟩ := hwritten
  have hread : ofText deckWritten.pretty = .ok s := readText_print (readSchema 127) hlossless.1 .pretty hs
  have hnested : deckEdited.tree.Nested 127 := (Tree.keep_ok_iff.mp ⟨_, by rfl⟩).2
  refine ⟨s, hread, (ofText_edited _ s hread).2 _ _ _ ?_ deck_edited hnested ?_⟩
  · rw [Json.pretty, String.toList_ofList]
    exact Json.writes_print hlossless.1 .pretty
  · rw [Json.compact, String.toList_ofList]
    exact Json.writes_print hlossless.2 .compact

end Schema

end TypedContent

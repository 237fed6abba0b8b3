import Mathlib
import TypedContent.Proofs.Field.Level
import TypedContent.Proofs.Reading.Record

/-!
# The written form of fields

Fields are written as the members of an object, in their order; what is not set is left out. The
item of a list stands alone, those of a polymorphic list in an array.
-/

namespace TypedContent

open Json (optional strings)

/-- What is open when something is written: whether an object without definitions is left out,
and in which order the members of a record come. -/
structure Form where
  empties : Bool
  order : List (String × Json) → List (String × Json)
  order_perm : ∀ members, (order members).Perm members

namespace Form

variable (form : Form)

def record (members : List (String × Json)) : Json := .obj (form.order members)

theorem nested_record {n : Nat} {members : List (String × Json)} (h : (form.record members).Nested n) :
    n ≠ 0 ∧ ∀ m ∈ members, m.2.Nested (n - 1) := by
  cases h with
  | obj h => exact ⟨Nat.succ_ne_zero _, fun m hm => h m ((form.order_perm members).mem_iff.mpr hm)⟩

theorem lossless_record {members : List (String × Json)} (h : ∀ m ∈ members, m.2.Lossless) :
    (form.record members).Lossless :=
  .obj fun m hm => h m ((form.order_perm members).mem_iff.mp hm)

/-- A record that is written with its slots in order is read in any other order too. -/
theorem read_record {σ : Type} {shape : Shape σ} (hs : shape.Lawful) {members : List (String × Json)} {result : σ}
    (h : Shape.Fills shape.slots shape.empty members result) {levels : Nat} (hlevels : levels ≠ 0) :
    readRecord levels shape (form.record members).tree = .ok result :=
  hs.read h (form.order_perm members).symm hlevels

end Form

def Attributes.write (a : Attributes (Option String)) : List (String × Json) :=
  optional "label" (a.label.map .str)
    ++ optional "description" (a.description.map .str)
    ++ optional "default" a.default
    ++ optional "required" (a.required.map .bool)
    ++ optional "const" a.const
    ++ optional "hidden" (a.hidden.map .bool)

mutual

def Kind.write (form : Form) : Kind (Option String) → List (String × Json)
  | .enum options => [("options", strings options)]
  | .object target => [("object", .str target)]
  | .inlineObject fields => [("fields", .obj (writeFields form fields))]
  | .reference target => [("document", .str target)]
  | .list item => [("of", form.record (itemMembers form item))]
  | .polymorphicList items typeField => [("of", .arr (writeItems form items)), ("typeField", .str typeField)]
  | _ => []

def writeFields (form : Form) : List SourceField → List (String × Json)
  | [] => []
  | ⟨a, kind⟩ :: rest =>
    (a.name, form.record (("type", .str kind.typeName) :: (a.write ++ kind.write form))) :: writeFields form rest

def itemMembers (form : Form) : SourceItem → List (String × Json)
  | ⟨labelField, .object target⟩ =>
    optional "labelField" (labelField.map .str) ++ [("type", .str "object"), ("object", .str target)]
  | ⟨labelField, .enum options⟩ =>
    optional "labelField" (labelField.map .str) ++ [("type", .str "enum"), ("options", strings options)]
  | ⟨labelField, .inlineObject fields⟩ =>
    optional "labelField" (labelField.map .str)
      ++ [("type", .str "inline_object"), ("fields", .obj (writeFields form fields))]
  | ⟨labelField, kind⟩ => optional "labelField" (labelField.map .str) ++ [("type", .str kind.typeName)]

def writeItems (form : Form) : List SourceItem → List Json
  | [] => []
  | item :: rest => form.record (itemMembers form item) :: writeItems form rest

end

section
variable (form : Form)

def writeItem (item : SourceItem) : Json := form.record (itemMembers form item)

def writeField (f : SourceField) : String × Json :=
  (f.name, form.record (("type", .str f.kind.typeName) :: (f.write ++ f.kind.write form)))

theorem writeItems_eq_map (items : List SourceItem) : writeItems form items = items.map (writeItem form) := by
  induction items with
  | nil => rfl
  | cons item rest ih =>
    rw [writeItems, ih, List.map_cons]
    rfl

theorem writeFields_eq_map (fields : List SourceField) : writeFields form fields = fields.map (writeField form) := by
  induction fields with
  | nil => rfl
  | cons f rest ih =>
    obtain ⟨a, kind⟩ := f
    rw [writeFields, ih, List.map_cons]
    rfl

theorem writeFields_eq_nil {fields : List SourceField} (h : writeFields form fields = []) : fields = [] := by
  rw [writeFields_eq_map] at h
  exact List.map_eq_nil_iff.mp h

end

/-! ## Fields that can be told apart when they are written -/

/-- The names under which the known kinds are written. -/
def Kind.knownNames : List String :=
  ["string", "boolean", "number", "date", "markdown", "enum", "object", "inline_object", "reference", "list",
    "polymorphic_list"]

/-- An attribute that is set to null reads as one that is not set, and a key that comes twice
counts only once. -/
@[mk_iff] structure FieldOf.Plain (f : SourceField) : Prop where
  other : ∀ name, f.kind = .other name → name ∉ Kind.knownNames
  default : ∀ v ∈ f.default, v ≠ .null ∧ v.Keyed ∧ v.Lossless
  const : ∀ v ∈ f.const, v ≠ .null ∧ v.Keyed ∧ v.Lossless

def PlainFields (fields : List SourceField) : Prop := ∀ level, Level fields level → ∀ f ∈ level, f.Plain

theorem plainFields_iff {fields : List SourceField} :
    PlainFields fields ↔ (∀ f ∈ fields, f.Plain) ∧ ∀ f ∈ fields, ∀ inner, f.kind.Holds inner → PlainFields inner :=
  forall_level_iff

theorem plainFields_nil : PlainFields [] :=
  plainFields_iff.mpr ⟨List.forall_mem_nil _, List.forall_mem_nil _⟩

theorem plainFields_cons {f : SourceField} {rest : List SourceField} :
    PlainFields (f :: rest) ↔ (f.Plain ∧ ∀ inner, f.kind.Holds inner → PlainFields inner) ∧ PlainFields rest := by
  rw [plainFields_iff, List.forall_mem_cons, List.forall_mem_cons, plainFields_iff]
  exact and_and_and_comm

/-! ## Numbers -/

theorem lossless_strings (texts : List String) : (strings texts).Lossless := by
  refine .arr fun x hx => ?_
  obtain ⟨s, -, rfl⟩ := List.mem_map.mp hx
  exact .str

theorem lossless_optional {key : String} {v : Option Json} (h : ∀ x ∈ v, x.Lossless) :
    ∀ m ∈ Json.optional key v, m.2.Lossless := by
  intro m hm
  cases v with
  | none => cases hm
  | some x =>
    rw [List.mem_singleton.mp hm]
    exact h x rfl

theorem lossless_str {key : String} (s : Option String) : ∀ m ∈ Json.optional key (s.map .str), m.2.Lossless := by
  refine lossless_optional fun x hx => ?_
  obtain ⟨s, -, rfl⟩ := Option.mem_map.mp hx
  exact .str

theorem lossless_bool {key : String} (b : Option Bool) : ∀ m ∈ Json.optional key (b.map .bool), m.2.Lossless := by
  refine lossless_optional fun x hx => ?_
  obtain ⟨b, -, rfl⟩ := Option.mem_map.mp hx
  exact .bool

theorem lossless_attributes {f : SourceField} (h : f.Plain) : ∀ m ∈ f.write, m.2.Lossless := by
  have hdefault : ∀ v ∈ f.default, v.Lossless := fun v hv => (h.default v hv).2.2
  have hconst : ∀ v ∈ f.const, v.Lossless := fun v hv => (h.const v hv).2.2
  unfold Attributes.write
  simp only [List.forall_mem_append]
  exact ⟨⟨⟨⟨⟨lossless_str _, lossless_str _⟩, lossless_optional hdefault⟩, lossless_bool _⟩, lossless_optional hconst⟩,
    lossless_bool _⟩

section
variable (form : Form)

theorem lossless_item {item : SourceItem}
    (h : ∀ inner, item.kind = .inlineObject inner → (Json.obj (writeFields form inner)).Lossless) :
    (writeItem form item).Lossless := by
  refine form.lossless_record ?_
  obtain ⟨labelField, kind⟩ := item
  cases kind with
  | inlineObject inner =>
    refine List.forall_mem_append.mpr ⟨lossless_str labelField, ?_⟩
    simp [Json.Lossless.str, h inner rfl]
  | enum options =>
    refine List.forall_mem_append.mpr ⟨lossless_str labelField, ?_⟩
    simp [Json.Lossless.str, lossless_strings]
  | _ =>
    refine List.forall_mem_append.mpr ⟨lossless_str labelField, ?_⟩
    simp [Json.Lossless.str]

theorem lossless_kind {kind : Kind (Option String)}
    (h : ∀ inner, kind.Holds inner → (Json.obj (writeFields form inner)).Lossless) :
    ∀ m ∈ kind.write form, m.2.Lossless := by
  have hitem : ∀ item ∈ kind.items, (writeItem form item).Lossless := fun item hm =>
    lossless_item form fun inner hk => h inner (.item hm hk)
  cases kind with
  | enum options => simp [Kind.write, lossless_strings]
  | inlineObject inner => simp [Kind.write, h inner .inlineObject]
  | list item => exact List.forall_mem_singleton.mpr (hitem item List.mem_cons_self)
  | polymorphicList items typeField =>
    have hitems : (Json.arr (writeItems form items)).Lossless := by
      rw [writeItems_eq_map]
      exact .arr (List.forall_mem_map.mpr hitem)
    simp [Kind.write, hitems, Json.Lossless.str]
  | _ => simp [Kind.write, Json.Lossless.str]

theorem lossless_fields (fields : List SourceField) :
    PlainFields fields → (Json.obj (writeFields form fields)).Lossless := by
  induction fields using fields_induction with
  | step fields ih =>
    intro hplain
    obtain ⟨htop, hinside⟩ := plainFields_iff.mp hplain
    rw [writeFields_eq_map]
    refine .obj (List.forall_mem_map.mpr fun f hf => ?_)
    have hkind := lossless_kind form fun inner hin => ih f hf inner hin (hinside f hf inner hin)
    have hmembers := List.forall_mem_append.mpr ⟨lossless_attributes (htop f hf), hkind⟩
    exact form.lossless_record (List.forall_mem_cons.mpr ⟨.str, hmembers⟩)

end

end TypedContent

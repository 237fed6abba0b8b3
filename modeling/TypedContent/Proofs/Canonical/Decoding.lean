import Mathlib
import TypedContent.Canonical.Serial
import TypedContent.Proofs.Canonical.Properties
import TypedContent.Proofs.Field.Written
import TypedContent.Proofs.Schema.Unambiguous

/-!
# The canonical schema can be told from its JSON

A decoder finds each attribute of a field by its key, and its kind by what stands under `type`: a
name that is not one of the known ones is the name of another kind. It gives back the canonical
schema of every schema that was read, and no object of the JSON has a key twice.
-/

namespace TypedContent

open Json (lookup optional strings)

/-! ## The decoder -/

namespace Json

def bool? : Json → Option Bool
  | .bool b => some b
  | _ => none

def items? : Json → Option (List Json)
  | .arr items => some items
  | _ => none

def members? : Json → Option (List (String × Json))
  | .obj members => some members
  | _ => none

def text? (key : String) (members : List (String × Json)) : Option String := (lookup key members).bind string?

def strings? (key : String) (members : List (String × Json)) : Option (List String) := do
  (← (← lookup key members).items?).mapM string?

end Json

open Json (text? strings?)

def Attributes.ofMembers? (members : List (String × Json)) : Option (Attributes String) := do
  return {
    name := ← text? "name" members
    label := ← text? "label" members
    description := text? "description" members
    default := lookup "default" members
    required := (lookup "required" members).bind Json.bool?
    const := lookup "const" members
    hidden := (lookup "hidden" members).bind Json.bool? }

/-- What the members of a field or an item hold that has fields of its own. -/
inductive Payload where
  | fields (fields : List Canonical.Field)
  | item (item : Canonical.Item)
  | items (items : List Canonical.Item)

def Kind.ofMembers? (members : List (String × Json)) (payload : Option Payload) : Option (Kind String) := do
  match ← text? "type" members, payload with
  | "string", _ => some .string
  | "boolean", _ => some .boolean
  | "number", _ => some .number
  | "date", _ => some .date
  | "markdown", _ => some .markdown
  | "enum", _ => .enum <$> strings? "options" members
  | "object", _ => .object <$> text? "objectName" members
  | "inline_object", some (.fields fields) => some (.inlineObject fields)
  | "reference", _ => .reference <$> text? "documentName" members
  | "list", some (.item item) => some (.list item)
  | "polymorphic_list", some (.items items) => .polymorphicList items <$> text? "typeField" members
  | name, _ => some (.other name)

def ItemKind.ofMembers? (members : List (String × Json)) (payload : Option Payload) :
    Option (ItemKind Canonical.Field) := do
  match ← text? "type" members, payload with
  | "string", _ => some .string
  | "boolean", _ => some .boolean
  | "object", _ => .object <$> text? "objectName" members
  | "enum", _ => .enum <$> strings? "options" members
  | "inline_object", some (.fields fields) => some (.inlineObject fields)
  | _, _ => none

def Item.ofMembers? (members : List (String × Json)) (payload : Option Payload) : Option Canonical.Item := do
  return ⟨text? "labelField" members, ← ItemKind.ofMembers? members payload⟩

mutual

def field? : Json → Option Canonical.Field
  | .obj members => do
    return ⟨← Attributes.ofMembers? members, ← Kind.ofMembers? members (payload? members)⟩
  | _ => none

def fields? : List Json → Option (List Canonical.Field)
  | [] => some []
  | v :: rest => do return (← field? v) :: (← fields? rest)

def item? : Json → Option Canonical.Item
  | .obj members => Item.ofMembers? members (payload? members)
  | _ => none

def items? : List Json → Option (List Canonical.Item)
  | [] => some []
  | v :: rest => do return (← item? v) :: (← items? rest)

def payload? : List (String × Json) → Option Payload
  | [] => none
  | (key, .arr values) :: rest =>
    if key = "fieldDefs" then .fields <$> fields? values
    else if key = "of" then .items <$> items? values
    else payload? rest
  | (key, .obj members) :: rest =>
    if key = "of" then .item <$> Item.ofMembers? members (payload? members)
    else payload? rest
  | _ :: rest => payload? rest

end

def ComputedField.ofJson? (v : Json) : Option ComputedField := do
  let members ← v.members?
  let type ← text? "type" members
  return {
    name := ← text? "name" members
    description := text? "description" members
    type := ← (ComputedType.all.find? (·.1 = type)).map (·.2)
    resolve := ← text? "resolve" members }

namespace Canonical

def Document.ofJson? (v : Json) : Option Document := do
  let members ← v.members?
  return {
    name := ← text? "name" members
    label := ← text? "label" members
    description := text? "description" members
    labelField := text? "labelField" members
    isSingleton := ← (← lookup "isSingleton" members).bool?
    fields := ← fields? (← (← lookup "fieldDefs" members).items?)
    computed := ← (← (← lookup "computedFields" members).items?).mapM ComputedField.ofJson? }

def Object.ofJson? (v : Json) : Option Object := do
  let members ← v.members?
  return {
    name := ← text? "name" members
    label := ← text? "label" members
    description := text? "description" members
    labelField := text? "labelField" members
    fields := ← fields? (← (← lookup "fieldDefs" members).items?) }

def Schema.ofJson? (v : Json) : Option Schema := do
  let members ← v.members?
  let documents ← (← lookup "documentDefMap" members).members?
  let objects ← (← lookup "objectDefMap" members).members?
  return {
    documents := ⟨.document, ← documents.mapM fun m => Document.ofJson? m.2⟩
    objects := ⟨.object, ← objects.mapM fun m => Object.ofJson? m.2⟩ }

end Canonical

/-! ## Looking up members -/

namespace Json

@[simp] theorem lookup_nil (key : String) : lookup key [] = none := by
  rw [lookup]

@[simp] theorem lookup_self (key : String) (v : Json) (rest : List (String × Json)) :
    lookup key ((key, v) :: rest) = some v :=
  if_pos rfl

@[simp] theorem lookup_other {key k : String} (h : k ≠ key) (v : Json) (rest : List (String × Json)) :
    lookup key ((k, v) :: rest) = lookup key rest :=
  if_neg h

@[simp] theorem lookup_append (key : String) (members rest : List (String × Json)) :
    lookup key (members ++ rest) = (lookup key members).or (lookup key rest) := by
  induction members with
  | nil => rfl
  | cons m members ih =>
    obtain ⟨k, v⟩ := m
    by_cases h : k = key <;> simp [lookup, h, ih]

@[simp] theorem lookup_optional (key k : String) (v : Option Json) :
    lookup key (optional k v) = if k = key then v else none := by
  cases v <;> simp [optional, lookup]

theorem lookup_eq_none {key : String} {members : List (String × Json)} (h : key ∉ members.map Prod.fst) :
    lookup key members = none := by
  induction members with
  | nil => rfl
  | cons m rest ih =>
    obtain ⟨hm, hrest⟩ := not_or.mp (List.mem_cons.not.mp h)
    rw [lookup, if_neg (Ne.symm hm), ih hrest]

theorem keys_optional (key : String) (v : Option Json) : ((optional key v).map Prod.fst).Sublist [key] := by
  cases v with
  | none => exact List.nil_sublist _
  | some v => exact List.Sublist.refl _

theorem keyed_optional {key : String} {v : Option Json} (h : ∀ x ∈ v, x.Keyed) : ∀ m ∈ optional key v, m.2.Keyed := by
  intro m hm
  cases v with
  | none => cases hm
  | some x =>
    rw [List.mem_singleton.mp hm]
    exact h x rfl

theorem keyed_text {key : String} (s : Option String) : ∀ m ∈ optional key (s.map .str), m.2.Keyed := by
  refine keyed_optional fun x hx => ?_
  obtain ⟨s, -, rfl⟩ := Option.mem_map.mp hx
  exact .str

theorem keyed_bool {key : String} (b : Option Bool) : ∀ m ∈ optional key (b.map .bool), m.2.Keyed := by
  refine keyed_optional fun x hx => ?_
  obtain ⟨b, -, rfl⟩ := Option.mem_map.mp hx
  exact .bool

theorem keyed_strings (texts : List String) : (strings texts).Keyed := by
  refine .arr fun x hx => ?_
  obtain ⟨s, -, rfl⟩ := List.mem_map.mp hx
  exact .str

theorem bind_string? (s : Option String) : (s.map str).bind string? = s := by
  cases s <;> rfl

theorem bind_bool? (b : Option Bool) : (b.map bool).bind bool? = b := by
  cases b <;> rfl

theorem strings?_eq {key : String} {members : List (String × Json)} {texts : List String}
    (h : lookup key members = some (strings texts)) : strings? key members = some texts := by
  have htexts : (texts.map Json.str).mapM string? = some texts := mapM_map_eq_some fun _ _ => rfl
  simp [strings?, h, strings, items?, htexts]

end Json

/-! ## Keys -/

def fieldKeys : List String := ["name", "label", "description", "default", "required", "const", "hidden"]

def kindKeys : List String := ["type", "options", "objectName", "fieldDefs", "documentName", "typeField", "of"]

theorem keys_attributes (a : Attributes String) : (a.toMembers.map Prod.fst).Sublist fieldKeys := by
  unfold Attributes.toMembers
  simp only [List.map_append]
  exact (((((List.Sublist.refl _).append (Json.keys_optional _ _)).append (Json.keys_optional _ _)).append
    (Json.keys_optional _ _)).append (Json.keys_optional _ _)).append (Json.keys_optional _ _)

theorem keys_kind (kind : Kind String) : (kind.toMembers.map Prod.fst).Sublist kindKeys := by
  cases kind <;> simp only [Kind.toMembers, List.map_cons, List.map_nil] <;> decide

theorem keys_disjoint : ∀ key ∈ fieldKeys, key ∉ kindKeys := by decide

/-! ## Members of fields and items -/

theorem Attributes.ofMembers?_toMembers (a : Attributes String) {rest : List (String × Json)}
    (h : ∀ key ∈ fieldKeys, lookup key rest = none) : ofMembers? (a.toMembers ++ rest) = some a := by
  simp only [fieldKeys, List.forall_mem_cons, List.not_mem_nil, false_implies, implies_true, and_true] at h
  obtain ⟨-, -, hdescription, hdefault, hrequired, hconst, hhidden⟩ := h
  obtain ⟨name, label, description, default, required, const, hidden⟩ := a
  simp [ofMembers?, toMembers, text?, Json.string?, hdescription, hdefault, hrequired, hconst,
    hhidden, Json.bind_string?, Json.bind_bool?]

def Kind.payload : Kind String → Option Payload
  | .inlineObject fields => some (.fields fields)
  | .list item => some (.item item)
  | .polymorphicList items _ => some (.items items)
  | _ => none

def ItemKind.payload : ItemKind Canonical.Field → Option Payload
  | .inlineObject fields => some (.fields fields)
  | _ => none

theorem Kind.ofMembers?_toMembers {kind : Kind String} (hother : ∀ name, kind = .other name → name ∉ Kind.knownNames)
    {before : List (String × Json)} (h : ∀ key ∈ kindKeys, lookup key before = none) :
    ofMembers? (before ++ kind.toMembers) kind.payload = some kind := by
  simp only [kindKeys, List.forall_mem_cons, List.not_mem_nil, false_implies, implies_true, and_true] at h
  obtain ⟨htype, hoptions, hobject, -, hdocument, hfield, -⟩ := h
  cases kind with
  | enum options =>
    have hstrings : strings? "options" (before ++ (Kind.enum options).toMembers) = some options := by
      refine Json.strings?_eq ?_
      simp [toMembers, hoptions]
    have htext : text? "type" (before ++ (Kind.enum options).toMembers) = some "enum" := by
      simp [text?, toMembers, Json.string?, htype]
    simp only [ofMembers?, htext, Option.bind_eq_bind, Option.bind_some, hstrings, Option.map_eq_map, Option.map_some]
  | other name =>
    have hname := hother name rfl
    simp only [Kind.knownNames, List.mem_cons, List.not_mem_nil, or_false, not_or] at hname
    have htext : text? "type" (before ++ (Kind.other name).toMembers) = some name := by
      simp [text?, toMembers, Json.string?, htype, typeName]
    unfold ofMembers?
    simp only [htext, Option.bind_eq_bind, Option.bind_some]
    split <;> first | rfl | tauto
  | _ =>
    simp [ofMembers?, toMembers, text?, Json.string?, htype, hobject, hdocument, hfield, payload,
      typeName]

/-- The members of an item but for its label field. -/
def ItemKind.toMembers : ItemKind Canonical.Field → List (String × Json)
  | .object target => [("type", .str "object"), ("objectName", .str target)]
  | .enum options => [("type", .str "enum"), ("options", strings options)]
  | .inlineObject fields => [("type", .str "inline_object"), ("fieldDefs", .arr (fieldsToJson fields))]
  | kind => [("type", .str kind.typeName)]

theorem ItemKind.ofMembers?_toMembers (labelField : Option String) (kind : ItemKind Canonical.Field) :
    ofMembers? (optional "labelField" (labelField.map .str) ++ kind.toMembers) kind.payload = some kind := by
  cases kind with
  | enum options =>
    have hstrings : strings? "options" (optional "labelField" (labelField.map .str) ++ (ItemKind.enum options).toMembers) =
        some options := by
      refine Json.strings?_eq ?_
      simp [toMembers]
    have htext : text? "type" (optional "labelField" (labelField.map .str) ++ (ItemKind.enum options).toMembers) =
        some "enum" := by
      simp [text?, toMembers, Json.string?]
    simp only [ofMembers?, htext, Option.bind_eq_bind, Option.bind_some, hstrings, Option.map_eq_map, Option.map_some]
  | _ => simp [ofMembers?, toMembers, text?, Json.string?, payload, typeName]

theorem itemToJson_eq (item : Canonical.Item) :
    itemToJson item = .obj (optional "labelField" (item.labelField.map .str) ++ item.kind.toMembers) := by
  obtain ⟨labelField, kind⟩ := item
  cases kind <;> simp only [itemToJson, ItemKind.toMembers]

theorem itemsToJson_eq_map (items : List Canonical.Item) : itemsToJson items = items.map itemToJson := by
  induction items with
  | nil => rfl
  | cons item rest ih => rw [itemsToJson, ih, List.map_cons]

def fieldToJson (f : Canonical.Field) : Json := .obj (f.toMembers ++ f.kind.toMembers)

theorem fieldsToJson_eq_map (fields : List Canonical.Field) : fieldsToJson fields = fields.map fieldToJson := by
  induction fields with
  | nil => rfl
  | cons f rest ih =>
    rw [fieldsToJson, ih, List.map_cons]
    rfl

/-! ## What fields hold -/

theorem payload?_skip {before rest : List (String × Json)} (h : ∀ m ∈ before, m.1 ≠ "fieldDefs" ∧ m.1 ≠ "of") :
    payload? (before ++ rest) = payload? rest := by
  induction before with
  | nil => rfl
  | cons m before ih =>
    obtain ⟨⟨hfields, hof⟩, hbefore⟩ := List.forall_mem_cons.mp h
    obtain ⟨key, v⟩ := m
    cases v <;> simp only [List.cons_append, payload?, hfields, hof, if_false, ih hbefore]

theorem fields?_eq_mapM (values : List Json) : fields? values = values.mapM field? := by
  induction values with
  | nil => rfl
  | cons v rest ih => rw [fields?, ih, List.mapM_cons]

theorem items?_eq_mapM (values : List Json) : items? values = values.mapM item? := by
  induction values with
  | nil => rfl
  | cons v rest ih => rw [items?, ih, List.mapM_cons]

/-- The fields are given back by the decoder. -/
def Decoded (fields : List Canonical.Field) : Prop := fields? (fieldsToJson fields) = some fields

theorem itemOfMembers?_payload (item : Canonical.Item) :
    Item.ofMembers? (optional "labelField" (item.labelField.map .str) ++ item.kind.toMembers) item.kind.payload =
      some item := by
  have hlabel : text? "labelField" (optional "labelField" (item.labelField.map .str) ++ item.kind.toMembers) =
      item.labelField := by
    obtain ⟨_ | labelField, kind⟩ := item <;> cases kind <;>
      simp [text?, ItemKind.toMembers, Json.string?]
  rw [Item.ofMembers?, hlabel, ItemKind.ofMembers?_toMembers]
  rfl

theorem payload?_itemKind {kind : ItemKind Canonical.Field} (h : ∀ inner, kind = .inlineObject inner → Decoded inner)
    (labelField : Option String) :
    payload? (optional "labelField" (labelField.map .str) ++ kind.toMembers) = kind.payload := by
  rw [payload?_skip (by cases labelField <;> simp [Json.optional])]
  cases kind with
  | inlineObject inner =>
    have hinner : fields? (fieldsToJson inner) = some inner := h inner rfl
    simp [ItemKind.toMembers, ItemKind.payload, payload?, hinner]
  | enum options => simp [ItemKind.toMembers, ItemKind.payload, payload?, strings]
  | _ => simp [ItemKind.toMembers, ItemKind.payload, payload?]

theorem item?_toJson {item : Canonical.Item} (h : ∀ inner, item.kind = .inlineObject inner → Decoded inner) :
    item? (itemToJson item) = some item := by
  rw [itemToJson_eq, item?, payload?_itemKind h, itemOfMembers?_payload]

theorem payload?_kind {kind : Kind String} (h : ∀ inner, kind.Holds inner → Decoded inner) :
    payload? kind.toMembers = kind.payload := by
  have hitem : ∀ item ∈ kind.items, item? (itemToJson item) = some item :=
    fun item hm => item?_toJson fun inner hk => h inner (.item hm hk)
  cases kind with
  | inlineObject inner =>
    have hinner : fields? (fieldsToJson inner) = some inner := h inner .inlineObject
    simp [Kind.toMembers, Kind.payload, payload?, hinner]
  | list item =>
    have hone := hitem item List.mem_cons_self
    rw [itemToJson_eq, item?] at hone
    simp [Kind.toMembers, Kind.payload, payload?, itemToJson_eq, hone]
  | polymorphicList items typeField =>
    have hitems : items? (itemsToJson items) = some items := by
      rw [itemsToJson_eq_map, items?_eq_mapM]
      exact mapM_map_eq_some hitem
    simp [Kind.toMembers, Kind.payload, payload?, hitems]
  | enum options => simp [Kind.toMembers, Kind.payload, payload?, strings]
  | _ => simp [Kind.toMembers, Kind.payload, payload?]

/-! ## All fields -/

theorem field?_toJson {f : Canonical.Field} (hf : f.Unambiguous) (h : ∀ inner, f.kind.Holds inner → Decoded inner) :
    field? (fieldToJson f) = some f := by
  have hafter : ∀ key ∈ fieldKeys, lookup key f.kind.toMembers = none := fun key hkey =>
    Json.lookup_eq_none fun hm => keys_disjoint key hkey ((keys_kind f.kind).subset hm)
  have hbefore : ∀ key ∈ kindKeys, lookup key f.toMembers = none := fun key hkey =>
    Json.lookup_eq_none fun hm => keys_disjoint key ((keys_attributes f.toAttributes).subset hm) hkey
  have hskip : ∀ m ∈ f.toMembers, m.1 ≠ "fieldDefs" ∧ m.1 ≠ "of" := by
    intro m hm
    have hkey := keys_disjoint m.1 ((keys_attributes f.toAttributes).subset (List.mem_map_of_mem hm))
    simp only [kindKeys, List.mem_cons, not_or] at hkey
    tauto
  rw [fieldToJson, field?, Attributes.ofMembers?_toMembers _ hafter, payload?_skip hskip, payload?_kind h,
    Kind.ofMembers?_toMembers hf.other hbefore]
  rfl

theorem fields?_toJson (fields : List Canonical.Field) : UnambiguousFields fields → Decoded fields := by
  induction fields using fields_induction with
  | step fields ih =>
    intro h
    obtain ⟨htop, hinside⟩ := unambiguousFields_iff.mp h
    rw [Decoded, fieldsToJson_eq_map, fields?_eq_mapM]
    exact mapM_map_eq_some fun f hf => field?_toJson (htop f hf) fun inner hin => ih f hf inner hin (hinside f hf inner hin)

theorem keyed_item {item : Canonical.Item}
    (h : ∀ inner, item.kind = .inlineObject inner → (Json.arr (fieldsToJson inner)).Keyed) : (itemToJson item).Keyed := by
  rw [itemToJson_eq]
  have hkeys : ((optional "labelField" (item.labelField.map .str) ++ item.kind.toMembers).map Prod.fst).Sublist
      ("labelField" :: kindKeys) := by
    rw [List.map_append, ← List.singleton_append]
    refine (Json.keys_optional _ _).append ?_
    cases item.kind <;> simp only [ItemKind.toMembers, List.map_cons, List.map_nil] <;> decide
  refine .obj (hkeys.nodup (by decide)) (List.forall_mem_append.mpr ⟨Json.keyed_text _, ?_⟩)
  obtain ⟨labelField, kind⟩ := item
  cases kind with
  | inlineObject inner => simp [ItemKind.toMembers, Json.Keyed.str, h inner rfl]
  | enum options => simp [ItemKind.toMembers, Json.Keyed.str, Json.keyed_strings]
  | _ => simp [ItemKind.toMembers, Json.Keyed.str]

theorem keyed_kind {kind : Kind String} (h : ∀ inner, kind.Holds inner → (Json.arr (fieldsToJson inner)).Keyed) :
    ∀ m ∈ kind.toMembers, m.2.Keyed := by
  have hitem : ∀ item ∈ kind.items, (itemToJson item).Keyed :=
    fun item hm => keyed_item fun inner hk => h inner (.item hm hk)
  cases kind with
  | enum options => simp [Kind.toMembers, Json.Keyed.str, Json.keyed_strings]
  | inlineObject inner => simp [Kind.toMembers, Json.Keyed.str, h inner .inlineObject]
  | list item => simp [Kind.toMembers, Json.Keyed.str, hitem item List.mem_cons_self]
  | polymorphicList items typeField =>
    have hitems : (Json.arr (itemsToJson items)).Keyed := by
      rw [itemsToJson_eq_map]
      exact .arr (List.forall_mem_map.mpr hitem)
    simp [Kind.toMembers, Json.Keyed.str, hitems]
  | _ => simp [Kind.toMembers, Json.Keyed.str]

theorem keyed_fields (fields : List Canonical.Field) :
    UnambiguousFields fields → (Json.arr (fieldsToJson fields)).Keyed := by
  induction fields using fields_induction with
  | step fields ih =>
    intro h
    obtain ⟨htop, hinside⟩ := unambiguousFields_iff.mp h
    rw [fieldsToJson_eq_map]
    refine .arr (List.forall_mem_map.mpr fun f hf => ?_)
    have hkind := keyed_kind fun inner hin => ih f hf inner hin (hinside f hf inner hin)
    have hattributes : ∀ m ∈ f.toMembers, m.2.Keyed := by
      unfold Attributes.toMembers
      simp only [List.forall_mem_append]
      refine ⟨⟨⟨⟨⟨?_, Json.keyed_text _⟩, Json.keyed_optional (htop f hf).default⟩, Json.keyed_bool _⟩,
        Json.keyed_optional (htop f hf).const⟩, Json.keyed_bool _⟩
      simp [Json.Keyed.str]
    have hnodup : ((f.toMembers ++ f.kind.toMembers).map Prod.fst).Nodup := by
      rw [List.map_append]
      exact ((keys_attributes f.toAttributes).append (keys_kind f.kind)).nodup (by decide)
    exact .obj hnodup (List.forall_mem_append.mpr ⟨hattributes, hkind⟩)

/-! ## Definitions -/

theorem ComputedType.find?_text (type : ComputedType) :
    ComputedType.all.find? (·.1 = type.text) = some (type.text, type) := by
  cases type <;> rfl

theorem ComputedField.ofJson?_toJson (c : ComputedField) : ofJson? c.toJson = some c := by
  obtain ⟨name, description, type, resolve⟩ := c
  simp [ofJson?, toJson, Json.members?, text?, Json.string?, Json.bind_string?, ComputedType.find?_text]

theorem keyed_computed (c : ComputedField) : c.toJson.Keyed := by
  refine .obj ?_ ?_
  · have hkeys := Json.keys_optional "description" (c.description.map .str)
    have hall := ((List.Sublist.refl ["name"]).append hkeys).append (List.Sublist.refl ["type", "resolve"])
    simpa using hall.nodup (by decide)
  · simp only [List.forall_mem_append]
    exact ⟨⟨by simp [Json.Keyed.str], Json.keyed_text _⟩, by simp [Json.Keyed.str]⟩

namespace Canonical

theorem Document.ofJson?_toJson {d : Document} (h : UnambiguousFields d.fields) : ofJson? d.toJson = some d := by
  obtain ⟨name, label, description, labelField, isSingleton, fields, computed⟩ := d
  have hfields : fields? (fieldsToJson fields) = some fields := fields?_toJson fields h
  have hcomputed : (computed.map (·.toJson)).mapM ComputedField.ofJson? = some computed :=
    mapM_map_eq_some fun c _ => c.ofJson?_toJson
  simp [ofJson?, toJson, Json.members?, text?, Json.string?, Json.bool?, Json.items?, hfields,
    hcomputed, Json.bind_string?]

theorem Object.ofJson?_toJson {o : Object} (h : UnambiguousFields o.fields) : ofJson? o.toJson = some o := by
  obtain ⟨name, label, description, labelField, fields⟩ := o
  have hfields : fields? (fieldsToJson fields) = some fields := fields?_toJson fields h
  simp [ofJson?, toJson, Json.members?, text?, Json.string?, Json.items?, hfields, Json.bind_string?]

theorem keyed_document {d : Document} (h : UnambiguousFields d.fields) : d.toJson.Keyed := by
  have hcomputed : (Json.arr (d.computed.map (·.toJson))).Keyed := .arr (List.forall_mem_map.mpr fun c _ => keyed_computed c)
  refine .obj ?_ ?_
  · have hall := (((List.Sublist.refl ["name", "label"]).append (Json.keys_optional "description" (d.description.map .str))).append
      (Json.keys_optional "labelField" (d.labelField.map .str))).append
      (List.Sublist.refl ["isSingleton", "fieldDefs", "computedFields"])
    simpa using hall.nodup (by decide)
  · simp only [List.forall_mem_append]
    refine ⟨⟨⟨by simp [Json.Keyed.str], Json.keyed_text _⟩, Json.keyed_text _⟩, ?_⟩
    simp [Json.Keyed.bool, keyed_fields _ h, hcomputed]

theorem keyed_object {o : Object} (h : UnambiguousFields o.fields) : o.toJson.Keyed := by
  refine .obj ?_ ?_
  · have hall := (((List.Sublist.refl ["name", "label"]).append (Json.keys_optional "description" (o.description.map .str))).append
      (Json.keys_optional "labelField" (o.labelField.map .str))).append (List.Sublist.refl ["fieldDefs"])
    simpa using hall.nodup (by decide)
  · simp only [List.forall_mem_append]
    refine ⟨⟨⟨by simp [Json.Keyed.str], Json.keyed_text _⟩, Json.keyed_text _⟩, ?_⟩
    simp [keyed_fields _ h]

/-- What makes a canonical schema the one that its JSON is decoded to. -/
structure Schema.Unambiguous (c : Schema) : Prop where
  document_kind : c.documents.kind = .document
  object_kind : c.objects.kind = .object
  documents_nodup : c.documents.names.Nodup
  objects_nodup : c.objects.names.Nodup
  documents : ∀ d ∈ c.documents.entries, UnambiguousFields d.fields
  objects : ∀ o ∈ c.objects.entries, UnambiguousFields o.fields

theorem Schema.ofJson?_toJson {c : Schema} (h : c.Unambiguous) : ofJson? c.toJson = some c := by
  obtain ⟨⟨documentKind, documents⟩, ⟨objectKind, objects⟩⟩ := c
  obtain ⟨rfl, rfl, -, -, hdocuments, hobjects⟩ := h
  have hdocs : (documents.map fun d => (Named.name d, d.toJson)).mapM (fun m => Document.ofJson? m.2) = some documents :=
    mapM_map_eq_some fun d hd => Document.ofJson?_toJson (hdocuments d hd)
  have hobjs : (objects.map fun o => (Named.name o, o.toJson)).mapM (fun m => Object.ofJson? m.2) = some objects :=
    mapM_map_eq_some fun o ho => Object.ofJson?_toJson (hobjects o ho)
  have hread : ofJson? (toJson ⟨⟨.document, documents⟩, ⟨.object, objects⟩⟩) =
      ((documents.map fun d => (Named.name d, d.toJson)).mapM fun m => Document.ofJson? m.2).bind fun documents =>
        ((objects.map fun o => (Named.name o, o.toJson)).mapM fun m => Object.ofJson? m.2).bind fun objects =>
          some ⟨⟨.document, documents⟩, ⟨.object, objects⟩⟩ := by rfl
  rw [hread, hdocs, hobjs]
  rfl

theorem keyed_table {α : Type} [Named α] {t : Table α} {entry : α → Json} (hn : t.names.Nodup)
    (h : ∀ a ∈ t.entries, (entry a).Keyed) : (t.toJson entry).Keyed := by
  refine .obj ?_ (List.forall_mem_map.mpr h)
  rw [List.map_map]
  exact hn

theorem Schema.keyed_toJson {c : Schema} (h : c.Unambiguous) : c.toJson.Keyed := by
  have hdocuments := keyed_table h.documents_nodup fun d hd => keyed_document (h.documents d hd)
  have hobjects := keyed_table h.objects_nodup fun o ho => keyed_object (h.objects o ho)
  exact .obj (by simp) (by simp [hdocuments, hobjects])

end Canonical

/-! ## Schemas that are read -/

theorem unambiguous_settle (fields : List SourceField) : UnambiguousFields fields → UnambiguousFields (settle fields) := by
  induction fields using fields_induction with
  | step fields ih =>
    intro h
    obtain ⟨htop, hinside⟩ := unambiguousFields_iff.mp h
    rw [settle_eq_map, unambiguousFields_iff, List.forall_mem_map, List.forall_mem_map]
    refine ⟨fun f hf => ⟨fun name hname => ?_, (htop f hf).default, (htop f hf).const⟩, fun f hf inner hin => ?_⟩
    · refine (htop f hf).other name ?_
      cases hk : f.kind <;> simp_all [Kind.settle]
    · obtain ⟨source, hs, rfl⟩ := holds_settle hin
      exact ih f hf source hs (hinside f hf source hs)

namespace Schema

theorem unambiguous_documentFields {d : DocumentType} (h : UnambiguousFields d.fields) :
    UnambiguousFields (documentFields d) := by
  have hsettled := unambiguous_settle d.fields h
  unfold documentFields
  split
  · obtain ⟨htop, hinside⟩ := unambiguousFields_iff.mp hsettled
    rw [unambiguousFields_iff, List.forall_mem_append, List.forall_mem_append]
    -- the body holds nothing
    refine ⟨⟨htop, ?_⟩, hinside, ?_⟩
    · rw [List.forall_mem_singleton]
      exact ⟨by simp [contentFieldDefinition], by simp [contentFieldDefinition], by simp [contentFieldDefinition]⟩
    · simp [contentFieldDefinition, holds_iff, Kind.items]
  · exact hsettled

theorem normalize_kinds {s : Schema} {c : Canonical.Schema} (h : s.normalize = .ok c) :
    c.documents.kind = .document ∧ c.objects.kind = .object := by
  unfold normalize at h
  simp only [bind_eq_ok, pure_eq_ok] at h
  obtain ⟨documents, hdocuments, found, -, objects, hobjects, rfl⟩ := h
  constructor
  · refine foldlM_invariant (P := fun t => t.kind = .document) (fun d _ t t' ht hadd => ?_) rfl hdocuments
    obtain ⟨-, -, hinsert⟩ := bind_eq_ok.mp hadd
    obtain ⟨-, rfl⟩ := Table.insert_eq_ok.mp hinsert
    exact ht
  · refine foldlM_invariant (P := fun t => t.kind = .object) (fun o _ t t' ht hadd => ?_) rfl hobjects
    obtain ⟨-, -, hinsert⟩ := bind_eq_ok.mp hadd
    obtain ⟨-, rfl⟩ := Table.insert_eq_ok.mp hinsert
    exact ht

theorem normalize_unambiguous {s : Schema} (hs : s.Unambiguous) {c : Canonical.Schema} (h : s.normalize = .ok c) :
    c.Unambiguous := by
  obtain ⟨found, hn⟩ := normalized_of_ok h
  obtain ⟨hdocuments, hobjects⟩ := normalize_kinds h
  refine ⟨hdocuments, hobjects, hn.documents_nodup, hn.objects_nodup, ?_, ?_⟩
  · rw [hn.documents, List.forall_mem_map]
    exact fun d hd => unambiguous_documentFields (hs.documents d hd)
  · rw [hn.objects, List.forall_mem_map]
    intro o ho
    exact unambiguous_settle o.fields (hs.objects o (Table.get?_some (hn.registered o ho)).1)

/-- The decoder gives back the canonical schema of every schema that is read, and no object of the
JSON has a key twice. So schemas that are read and differ in their canonical form differ in its
JSON. -/
theorem toJson_determines (text : String) (s : Schema) (c : Canonical.Schema) (hread : ofText text = .ok s)
    (hnormalize : s.normalize = .ok c) : Canonical.Schema.ofJson? c.toJson = some c ∧ c.toJson.Keyed := by
  have hc := normalize_unambiguous (ofText_unambiguous hread) hnormalize
  exact ⟨Canonical.Schema.ofJson?_toJson hc, Canonical.Schema.keyed_toJson hc⟩

/-- A null, a key that comes twice, and a kind that is not known. -/
def swatchWritten : Json := .obj [("documentTypes", .obj [("Swatch", .obj [("fields", .obj [
  ("tone", .obj [("const", .obj [("hue", .num (.int 1)), ("hue", .num (.int 2))]), ("default", .null),
    ("type", .str "color")]),
  ("parts", .obj [("type", .str "polymorphic_list"), ("typeField", .str "kind"), ("of", .arr [
    .obj [("type", .str "inline_object"), ("labelField", .str "by"), ("fields", .obj [
      ("by", .obj [("type", .str "string"), ("label", .str "By")])])],
    .obj [("type", .str "boolean")]])])])])])]

def swatchCanonical : Canonical.Schema where
  documents := ⟨.document, [
    { name := "Swatch", label := "Swatch", isSingleton := false, computed := [], fields := [
      ⟨{ name := "tone", label := "tone", const := some (.obj [("hue", .num (.int 2))]) }, .other "color"⟩,
      ⟨{ name := "parts", label := "parts" }, .polymorphicList [
        { labelField := some "by", kind := .inlineObject [⟨{ name := "by", label := "By" }, .string⟩] },
        { kind := .boolean }] "kind"⟩, contentFieldDefinition] }]⟩
  objects := ⟨.object, []⟩

theorem swatch_decoded : ∃ s, ofText swatchWritten.pretty = .ok s ∧ s.normalize = .ok swatchCanonical ∧
    Canonical.Schema.ofJson? swatchCanonical.toJson = some swatchCanonical ∧ swatchCanonical.toJson.Keyed := by
  have hlossless : swatchWritten.Lossless := by
    simp [swatchWritten, Json.lossless_obj, Json.lossless_arr, Json.lossless_num, Json.Lossless.str, Json.Lossless.null,
      Json.Exact]
  have hread : ∃ s, readSchema 127 swatchWritten.tree = .ok s ∧ s.normalize = .ok swatchCanonical := ⟨_, by rfl, by cbv⟩
  obtain ⟨s, hs, hc⟩ := hread
  have htext : ofText swatchWritten.pretty = .ok s := readText_print (readSchema 127) hlossless .pretty hs
  exact ⟨s, htext, hc, toJson_determines _ s _ htext hc⟩

end Schema

end TypedContent

import TypedContent.Proofs.Canonical.Closed

/-!
# The properties of a generated type

A type has the properties that every type of its table has and those of its fields. The schema
checks them for repetitions before the body of a markdown document is added as one more field.
That field keeps off declared fields, not off computed ones, and this is the only way in which
a property comes twice.
-/

namespace TypedContent

/-! ## Settled levels -/

variable {Label : Type}

/-- The fields are those of an inline object, at any depth. -/
def Nested (fields inner : List (Field Label)) : Prop :=
  ∃ f ∈ fields, ∃ outer, f.kind.Holds outer ∧ Level outer inner

theorem DistinctNames.nested {fields inner : List (Field Label)} (h : DistinctNames fields) (hin : Nested fields inner) :
    (inner.map (·.name)).Nodup := by
  obtain ⟨f, hf, outer, hh, hl⟩ := hin
  exact h inner (.inside hf hh hl)

theorem settle_eq_map (fields : List SourceField) : settle fields =
    fields.map fun f => ⟨{ f.toAttributes with label := f.label.getD f.name }, f.kind.settle⟩ := by
  induction fields with
  | nil => rfl
  | cons f rest ih => rw [settle, ih, List.map_cons]

theorem names_settle (fields : List SourceField) : (settle fields).map (·.name) = fields.map (·.name) := by
  rw [settle_eq_map, List.map_map]
  rfl

theorem mem_settle {fields : List SourceField} {f : Canonical.Field} (h : f ∈ settle fields) :
    ∃ source ∈ fields, f.kind = source.kind.settle := by
  rw [settle_eq_map] at h
  obtain ⟨source, hs, rfl⟩ := List.mem_map.mp h
  exact ⟨source, hs, rfl⟩

theorem settleItems_eq_map (items : List SourceItem) : settleItems items = items.map settleItem := by
  induction items with
  | nil => rfl
  | cons item rest ih => rw [settleItems, ih, List.map_cons]

theorem items_settle (kind : Kind (Option String)) : kind.settle.items = kind.items.map settleItem := by
  cases kind with
  | polymorphicList items typeField => exact settleItems_eq_map items
  | _ => rfl

theorem settleItem_inlineObject {item : SourceItem} {inner : List Canonical.Field}
    (h : (settleItem item).kind = .inlineObject inner) :
    ∃ source, item.kind = .inlineObject source ∧ settle source = inner := by
  obtain ⟨labelField, kind⟩ := item
  cases kind with
  | inlineObject fields =>
    cases h
    exact ⟨fields, rfl, rfl⟩
  | string | boolean | object target | enum options => cases h

theorem holds_settle {kind : Kind (Option String)} {inner : List Canonical.Field} (h : kind.settle.Holds inner) :
    ∃ source, kind.Holds source ∧ settle source = inner := by
  rcases holds_iff.mp h with h | ⟨item, hm, hk⟩
  · cases kind with
    | inlineObject fields =>
      cases h
      exact ⟨fields, .inlineObject, rfl⟩
    | _ => cases h
  · rw [items_settle] at hm
    obtain ⟨original, ho, rfl⟩ := List.mem_map.mp hm
    obtain ⟨source, hs, e⟩ := settleItem_inlineObject hk
    exact ⟨source, .item ho hs, e⟩

theorem distinctNames_settle (fields : List SourceField) (h : DistinctNames fields) : DistinctNames (settle fields) := by
  induction fields using fields_induction with
  | step fields ih =>
    obtain ⟨hn, hin⟩ := distinctNames_iff.mp h
    rw [distinctNames_iff, names_settle]
    refine ⟨hn, fun f hf inner hh => ?_⟩
    obtain ⟨g, hg, e⟩ := mem_settle hf
    rw [e] at hh
    obtain ⟨source, hs, rfl⟩ := holds_settle hh
    exact ih g hg source hs (hin g hg source hs)

/-! ## Properties -/

namespace Canonical

def Document.properties (d : Document) : List String :=
  TypeScript.idField :: TypeScript.typeNameField :: (d.fields.map (·.name) ++ d.computed.map (·.name))

def Object.properties (o : Object) : List String := TypeScript.typeNameField :: o.fields.map (·.name)

end Canonical

namespace Schema

/-- The body of the document is a property beside a computed field of the same name. -/
def BodyComputed (d : DocumentType) : Prop := d.hasMarkdownBody = true ∧ contentField ∈ d.computed.map (·.name)

theorem findField?_isNone {name : String} {fields : List (Field Label)} :
    (findField? name fields).isNone = true ↔ name ∉ fields.map (·.name) := by
  simp [findField?]

theorem names_documentFields (d : DocumentType) : (documentFields d).map (·.name) =
    if d.hasMarkdownBody ∧ contentField ∉ d.fields.map (·.name) then d.fields.map (·.name) ++ [contentField]
    else d.fields.map (·.name) := by
  unfold documentFields
  simp only [findField?_isNone]
  split
  · rw [List.map_append, names_settle]
    rfl
  · exact names_settle d.fields

section
variable {d : DocumentType} (h : d.Valid)
include h

theorem fields_computed_nodup : (d.fields.map (·.name) ++ d.computed.map (·.name)).Nodup :=
  List.nodup_append.mpr ⟨h.distinct _ .top, h.computed_distinct, fun _ hf _ hc e => h.computed_new _ hc (e ▸ hf)⟩

/-- The fields of a valid document and its computed ones differ unless the body comes between. -/
theorem documentFields_nodup_iff :
    ((documentFields d).map (·.name) ++ d.computed.map (·.name)).Nodup ↔ ¬BodyComputed d := by
  have hall := fields_computed_nodup h
  rw [names_documentFields]
  unfold BodyComputed
  split
  · next hadd =>
    obtain ⟨hbody, hnew⟩ := hadd
    rw [List.append_assoc, List.singleton_append, List.nodup_middle, List.nodup_cons, List.mem_append]
    simp [hbody, hall, hnew]
  · next hadd =>
    -- a declared field of the name keeps the computed ones from having it
    simp only [hall, true_iff, not_and]
    intro hbody hc
    exact hadd ⟨hbody, h.computed_new _ hc⟩

theorem reserved_not_mem {name : String} (hname : name = TypeScript.idField ∨ name = TypeScript.typeNameField) :
    name ∉ (documentFields d).map (·.name) ++ d.computed.map (·.name) := by
  have hdeclared : name ∉ d.fields.map (·.name) ++ d.computed.map (·.name) := fun hm =>
    hname.elim (h.not_reserved name hm).1 (h.not_reserved name hm).2
  have hbody : name ≠ contentField := by
    rcases hname with rfl | rfl <;> decide
  rw [List.mem_append, not_or] at hdeclared ⊢
  refine ⟨?_, hdeclared.2⟩
  rw [names_documentFields]
  split
  · simp [hdeclared.1, hbody]
  · exact hdeclared.1

theorem document_properties_nodup_iff : (settleDocument d).properties.Nodup ↔ ¬BodyComputed d := by
  have hid := reserved_not_mem h (Or.inl rfl)
  have htype := reserved_not_mem h (Or.inr rfl)
  have hne : TypeScript.idField ≠ TypeScript.typeNameField := by decide
  rw [← documentFields_nodup_iff h]
  simp only [Canonical.Document.properties, settleDocument, List.nodup_cons, List.mem_cons, not_or]
  exact ⟨fun hall => hall.2.2, fun hall => ⟨⟨hne, hid⟩, htype, hall⟩⟩

theorem distinctNames_documentFields : DistinctNames (documentFields d) := by
  obtain ⟨hnames, hinner⟩ := distinctNames_iff.mp (distinctNames_settle d.fields h.distinct)
  rw [distinctNames_iff, names_documentFields]
  constructor
  · split
    · next hadd => exact List.nodup_append.mpr ⟨h.distinct _ .top, List.nodup_singleton _, by grind⟩
    · exact h.distinct _ .top
  · intro f hf inner hh
    unfold documentFields at hf
    split at hf
    · rcases List.mem_append.mp hf with hf | hf
      · exact hinner f hf inner hh
      · -- the body holds no inline object
        rw [List.mem_singleton.mp hf] at hh
        rcases holds_iff.mp hh with e | ⟨item, hm, _⟩
        · cases e
        · cases hm
    · exact hinner f hf inner hh

theorem documentFields_nested {inner : List Canonical.Field} (hin : Nested (documentFields d) inner) :
    (inner.map (·.name)).Nodup :=
  (distinctNames_documentFields h).nested hin

end

theorem object_properties_nodup {o : ObjectType} (h : o.Valid) : (settleObject o).properties.Nodup := by
  have hnames : (settleObject o).fields.map (·.name) = o.fields.map (·.name) := names_settle o.fields
  rw [Canonical.Object.properties, hnames, List.nodup_cons]
  exact ⟨fun hm => h.not_reserved _ hm rfl, h.distinct _ .top⟩

end Schema

/-- Whatever calls built the schema: properties of objects and of inline objects never come
twice, and properties of documents do exactly where a markdown document has a computed field
of the name of its body. -/
theorem properties_distinct_iff (calls : List Addition) (c : Canonical.Schema)
    (h : (Schema.run calls).normalize = .ok c) :
    ((∀ d ∈ c.documents.entries, d.properties.Nodup) ↔
        ∀ d ∈ (Schema.run calls).documents.entries, ¬Schema.BodyComputed d) ∧
      (∀ o ∈ c.objects.entries, o.properties.Nodup) ∧
      ∀ fields ∈ c.fieldLists, ∀ inner, Nested fields inner → (inner.map (·.name)).Nodup := by
  obtain ⟨found, hn⟩ := Schema.normalized_of_ok h
  have hv := Schema.run_valid calls
  have hfound : ∀ o ∈ found, o.Valid := fun o ho => hv.objects o (Table.get?_some (hn.registered o ho)).1
  refine ⟨?_, ?_, ?_⟩
  · rw [hn.documents, List.forall_mem_map]
    exact forall₂_congr fun d hd => Schema.document_properties_nodup_iff (hv.documents d hd)
  · rw [hn.objects, List.forall_mem_map]
    exact fun o ho => Schema.object_properties_nodup (hfound o ho)
  · intro fields hfields inner hin
    rcases List.mem_append.mp hfields with hf | hf
    · obtain ⟨_, hd', rfl⟩ := List.mem_map.mp hf
      rw [hn.documents] at hd'
      obtain ⟨d, hd, rfl⟩ := List.mem_map.mp hd'
      exact Schema.documentFields_nested (hv.documents d hd) hin
    · obtain ⟨_, ho', rfl⟩ := List.mem_map.mp hf
      rw [hn.objects] at ho'
      obtain ⟨o, ho, rfl⟩ := List.mem_map.mp ho'
      exact (distinctNames_settle o.fields (hfound o ho).distinct).nested hin

theorem blog_properties_distinct :
    (Schema.run blog).normalize = .ok blogCanonical ∧ (∀ d ∈ blogCanonical.documents.entries, d.properties.Nodup) ∧
      (∀ o ∈ blogCanonical.objects.entries, o.properties.Nodup) ∧
      ∀ fields ∈ blogCanonical.fieldLists, ∀ inner, Nested fields inner → (inner.map (·.name)).Nodup := by
  have h : (Schema.run blog).normalize = .ok blogCanonical := by cbv
  obtain ⟨hiff, hall⟩ := properties_distinct_iff blog blogCanonical h
  have hcomputed : (Schema.run blog).documents.entries.map (·.computed) = [[]] := by cbv
  refine ⟨h, hiff.mpr fun d hd hbody => ?_, hall⟩
  have hnone : d.computed ∈ (Schema.run blog).documents.entries.map (·.computed) := List.mem_map.mpr ⟨d, hd, rfl⟩
  rw [hcomputed, List.mem_singleton] at hnone
  simp [Schema.BodyComputed, hnone] at hbody

/-- A markdown document that computes a field of the name of its body. -/
def computedBody : List Addition :=
  [.document { name := "Post", computed := [{ name := "content", type := .string, resolve := "render" }] }]

def computedBodyCanonical : Canonical.Schema where
  documents := ⟨.document, [
    { name := "Post", label := "Post", isSingleton := false, fields := [Schema.contentFieldDefinition],
      computed := [{ name := "content", type := .string, resolve := "render" }] }]⟩
  objects := ⟨.object, []⟩

theorem computed_body_comes_twice :
    (Schema.run computedBody).normalize = .ok computedBodyCanonical ∧
      ¬∀ d ∈ computedBodyCanonical.documents.entries, d.properties.Nodup :=
  ⟨by cbv, by decide⟩

end TypedContent

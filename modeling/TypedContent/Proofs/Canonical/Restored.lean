import Mathlib
import TypedContent.Proofs.Canonical.Properties
import TypedContent.Proofs.Field.Relabel
import TypedContent.Proofs.Schema.Written

/-!
# Nothing is lost

The canonical schema holds all that its documents and objects say. Its fields, read as written
ones again, are the fields that were written, except that each label is filled in; the only field
that was not written is the body of a markdown document, which comes last.
-/

namespace TypedContent

/-- Canonical fields as they would be written: each name of a definition is a reference by that
name, and each label is set. -/
def restore : List Canonical.Field → List SourceField := relabel fun _ label => some label

/-- Written fields with each missing label replaced by the field's name. -/
def labelled : List SourceField → List SourceField := relabel fun name label => some (label.getD name)

/-- What is kept of the fields of a definition. If each label was written, it is all of them. -/
structure FieldsKept (fields : List SourceField) (own : List Canonical.Field) : Prop where
  restored : restore own = labelled fields
  same : (∀ level, Level fields level → ∀ f ∈ level, f.label ≠ none) → restore own = fields

theorem restore_settle (fields : List SourceField) : restore (settle fields) = labelled fields := by
  rw [restore, settle_eq_relabel, relabel_relabel, labelled]

theorem labelled_eq_self {fields : List SourceField} (h : ∀ level, Level fields level → ∀ f ∈ level, f.label ≠ none) :
    labelled fields = fields := by
  refine relabel_self _ fields fun level hl f hf => ?_
  obtain ⟨label, hlabel⟩ := Option.ne_none_iff_exists'.mp (h level hl f hf)
  rw [hlabel, Option.getD_some]

theorem fieldsKept_settle (fields : List SourceField) : FieldsKept fields (settle fields) where
  restored := restore_settle fields
  same h := (restore_settle fields).trans (labelled_eq_self h)

namespace Schema

/-- The body of the document is a field of its own. -/
def HasBodyField (d : DocumentType) : Prop :=
  (d.fileType = none ∨ d.fileType = some .md) ∧ contentField ∉ d.fields.map (·.name)

structure DocumentKept (d : DocumentType) (own : Canonical.Document) : Prop where
  name : own.name = d.name
  label : own.label = d.label.getD d.name
  description : own.description = d.description
  labelField : own.labelField = d.labelField
  isSingleton : own.isSingleton = d.isSingleton.getD false
  computed : own.computed = d.computed
  fields : ∃ declared, FieldsKept d.fields declared ∧ (HasBodyField d → own.fields = declared ++ [contentFieldDefinition]) ∧
    (¬HasBodyField d → own.fields = declared)

structure ObjectKept (o : ObjectType) (own : Canonical.Object) : Prop where
  name : own.name = o.name
  label : own.label = o.label.getD o.name
  description : own.description = o.description
  labelField : own.labelField = o.labelField
  fields : FieldsKept o.fields own.fields

theorem hasBodyField_iff {d : DocumentType} :
    (d.hasMarkdownBody = true ∧ (findField? contentField d.fields).isNone = true) ↔ HasBodyField d := by
  rw [findField?_isNone, HasBodyField]
  refine and_congr_left' ?_
  unfold DocumentType.hasMarkdownBody
  rcases d.fileType with _ | ⟨_ | _ | _ | _⟩ <;> simp

theorem documentKept_settle (d : DocumentType) : DocumentKept d (settleDocument d) where
  name := rfl
  label := rfl
  description := rfl
  labelField := rfl
  isSingleton := rfl
  computed := rfl
  fields := by
    refine ⟨settle d.fields, fieldsKept_settle d.fields, fun h => ?_, fun h => ?_⟩
    · exact if_pos (hasBodyField_iff.mpr h)
    · exact if_neg (mt hasBodyField_iff.mp h)

theorem objectKept_settle (o : ObjectType) : ObjectKept o (settleObject o) :=
  ⟨rfl, rfl, rfl, rfl, fieldsKept_settle o.fields⟩

/-- The documents of the canonical schema are those of the schema, and its objects are those that
are collected, each in its place and with nothing lost but whether a label was written. -/
theorem normalize_keeps (s : Schema) (c : Canonical.Schema) (h : s.normalize = .ok c) :
    List.Forall₂ DocumentKept s.documents.entries c.documents.entries ∧
      ∃ found, s.collect = .ok found ∧ List.Forall₂ ObjectKept found c.objects.entries := by
  obtain ⟨found, hn⟩ := normalized_of_ok h
  refine ⟨?_, found, hn.collected, ?_⟩
  · rw [hn.documents, List.forall₂_map_right_iff, List.forall₂_same]
    exact fun d _ => documentKept_settle d
  · rw [hn.objects, List.forall₂_map_right_iff, List.forall₂_same]
    exact fun o _ => objectKept_settle o

def memo : DocumentType where
  name := "Memo"
  fields := [
    ⟨{ name := "tone", label := none, default := some .null, required := some false, const := some draftAt,
        hidden := some true }, .other "tone"⟩,
    ⟨{ name := "parts", label := some "Parts" }, .polymorphicList [
      { labelField := some "by", kind := .inlineObject [⟨{ name := "by", label := none }, .list { kind := .object "Hero" }⟩] },
      { kind := .boolean }] "kind"⟩]
  computed := [{ name := "slug", type := .string, resolve := "slugify" }]

/-- A markdown document that declares a field called like its body. -/
def letter : DocumentType where
  name := "Letter"
  label := some "letter"
  isSingleton := some true
  fields := [⟨{ name := "content", label := none }, .string⟩]

def memos : List Addition := catalog ++ [.document memo, .document letter]

theorem memos_kept : ∃ c, (run memos).normalize = .ok c ∧
    (c.documents.entries.map fun d => (d.name, d.label, d.isSingleton, d.fields.map (·.name))) = [
      ("Page", "page", false, ["status", "blocks", "color"]), ("Memo", "Memo", false, ["tone", "parts", "content"]),
      ("Letter", "letter", true, ["content"])] ∧
    List.Forall₂ DocumentKept (run memos).documents.entries c.documents.entries ∧
      ∃ found, (run memos).collect = .ok found ∧ List.Forall₂ ObjectKept found c.objects.entries := by
  have hnames : (fun c => c.documents.entries.map fun d => (d.name, d.label, d.isSingleton, d.fields.map (·.name))) <$>
      (run memos).normalize = .ok [
        ("Page", "page", false, ["status", "blocks", "color"]), ("Memo", "Memo", false, ["tone", "parts", "content"]),
        ("Letter", "letter", true, ["content"])] := by cbv
  obtain ⟨c, hc, hdocuments⟩ := map_eq_ok.mp hnames
  exact ⟨c, hc, hdocuments, normalize_keeps _ c hc⟩

end Schema

end TypedContent

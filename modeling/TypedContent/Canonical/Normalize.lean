import TypedContent.Canonical.Definition
import TypedContent.Schema.Walk

/-!
# From a schema to its canonical form

References are looked up in reading order, documents first; the first one that finds
nothing ends the normalization. Once they are known to resolve, settling the fields cannot
fail.
-/

namespace TypedContent

/-! ## Settled fields -/

mutual

def Kind.settle : Kind (Option String) → Kind String
  | .string => .string
  | .boolean => .boolean
  | .number => .number
  | .date => .date
  | .markdown => .markdown
  | .enum options => .enum options
  | .object target => .object target
  | .inlineObject fields => .inlineObject (settle fields)
  | .reference target => .reference target
  | .list item => .list (settleItem item)
  | .polymorphicList items typeField => .polymorphicList (settleItems items) typeField
  | .other name => .other name

def settle : List SourceField → List Canonical.Field
  | [] => []
  | ⟨a, kind⟩ :: rest => ⟨{ a with label := a.label.getD a.name }, kind.settle⟩ :: settle rest

def settleItem : SourceItem → Canonical.Item
  | ⟨labelField, .string⟩ => ⟨labelField, .string⟩
  | ⟨labelField, .boolean⟩ => ⟨labelField, .boolean⟩
  | ⟨labelField, .object target⟩ => ⟨labelField, .object target⟩
  | ⟨labelField, .enum options⟩ => ⟨labelField, .enum options⟩
  | ⟨labelField, .inlineObject fields⟩ => ⟨labelField, .inlineObject (settle fields)⟩

def settleItems : List SourceItem → List Canonical.Item
  | [] => []
  | item :: rest => settleItem item :: settleItems rest

end

namespace Schema

def checkLinks (s : Schema) (owner : String) (fields : List SourceField) : Except SchemaError Unit :=
  match (links fields).find? fun l => !s.resolves l with
  | some l => .error (unresolved owner l)
  | none => .ok ()

/-- The name of the field that holds the body of a markdown document. -/
def contentField : String := "content"

def contentFieldDefinition : Canonical.Field where
  name := contentField
  label := "Markdown content"
  description := some "Default markdown file content"
  kind := .markdown

/-- The fields of a document: those that are declared, and its body unless a field of that
name is declared. -/
def documentFields (d : DocumentType) : List Canonical.Field :=
  if d.hasMarkdownBody ∧ (findField? contentField d.fields).isNone then
    settle d.fields ++ [contentFieldDefinition]
  else settle d.fields

def settleDocument (d : DocumentType) : Canonical.Document where
  name := d.name
  label := d.label.getD d.name
  description := d.description
  labelField := d.labelField
  isSingleton := d.isSingleton.getD false
  fields := documentFields d
  computed := d.computed

def settleObject (o : ObjectType) : Canonical.Object where
  name := o.name
  label := o.label.getD o.name
  description := o.description
  labelField := o.labelField
  fields := settle o.fields

def addSettledDocument (s : Schema) (t : Table Canonical.Document) (d : DocumentType) :
    Except SchemaError (Table Canonical.Document) := do
  s.checkLinks d.name d.fields
  t.insert (settleDocument d)

def addSettledObject (s : Schema) (t : Table Canonical.Object) (o : ObjectType) :
    Except SchemaError (Table Canonical.Object) := do
  s.checkLinks o.name o.fields
  t.insert (settleObject o)

def normalize (s : Schema) : Except SchemaError Canonical.Schema := do
  let documents ← s.documents.entries.foldlM s.addSettledDocument (.empty .document)
  let objects ← (← s.collect).foldlM s.addSettledObject (.empty .object)
  return { documents, objects }

end Schema

end TypedContent

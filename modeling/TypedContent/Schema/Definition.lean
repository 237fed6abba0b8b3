import TypedContent.Field
import TypedContent.Table

/-!
# Definitions as they are written
-/

namespace TypedContent

inductive FileType where
  | md
  | mdx
  | json
  | yaml
  deriving DecidableEq

inductive ComputedType where
  | string
  | number
  | boolean
  | date
  | json
  | list
  deriving DecidableEq

/-- A field whose value a resolver computes. Only the resolver's name is known here. -/
structure ComputedField where
  name : String
  description : Option String := none
  type : ComputedType
  resolve : String
  deriving DecidableEq

abbrev SourceField : Type := Field (Option String)

abbrev SourceItem : Type := Item (Option String)

structure DocumentType where
  name : String
  label : Option String := none
  description : Option String := none
  labelField : Option String := none
  fileType : Option FileType := none
  isSingleton : Option Bool := none
  fields : List SourceField := []
  computed : List ComputedField := []

structure ObjectType where
  name : String
  label : Option String := none
  description : Option String := none
  labelField : Option String := none
  fields : List SourceField := []

instance : Named DocumentType := ⟨DocumentType.name⟩

instance : Named ObjectType := ⟨ObjectType.name⟩

def FileType.all : List (String × FileType) := [("md", .md), ("mdx", .mdx), ("json", .json), ("yaml", .yaml)]

def FileType.text : FileType → String
  | .md => "md"
  | .mdx => "mdx"
  | .json => "json"
  | .yaml => "yaml"

def ComputedType.all : List (String × ComputedType) :=
  [("string", .string), ("number", .number), ("boolean", .boolean), ("date", .date), ("json", .json), ("list", .list)]

def ComputedType.text : ComputedType → String
  | .string => "string"
  | .number => "number"
  | .boolean => "boolean"
  | .date => "date"
  | .json => "json"
  | .list => "list"

/-- Markdown is what a document's body holds unless its file type says otherwise. -/
def DocumentType.hasMarkdownBody (d : DocumentType) : Bool :=
  match d.fileType with
  | none => true
  | some .md => true
  | some _ => false

end TypedContent

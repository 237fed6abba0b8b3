import TypedContent.Canonical.Definition
import TypedContent.TypeScript.Comment
import TypedContent.TypeScript.Name

/-!
# Type declarations

Documents and objects are always referred to by name, so cyclic types render like any
other; only inline objects are written out in place. `|` binds more loosely than `[]`, so a
union that is the element of a list stands in parentheses.
-/

namespace TypedContent

namespace TypeScript

def literalUnion (options : List String) : String :=
  if options.isEmpty then "never" else " | ".intercalate (options.map stringLiteral)

def arrayOf (element : String) (isUnion : Bool) : String :=
  if isUnion then "(" ++ element ++ ")[]" else element ++ "[]"

def isUnion {F : Type} (item : ItemOf F) : Bool :=
  match item.kind with
  | .enum options => 1 < options.length
  | _ => false

def bracedMembers (members : List String) : String := "\x7b " ++ "; ".intercalate members ++ " \x7d"

def objectType (members : List String) : String :=
  if members.isEmpty then "\x7b\x7d" else bracedMembers members

/-- The members of an item of a list whose items are told apart by `typeField`: that
member comes first, unless the item declares it. -/
def taggedMembers (typeField : String) (fields : List Canonical.Field) (members : List String) : List String :=
  if fields.any (·.name = typeField) then members
  else (propertyName typeField ++ ": string") :: members

def fieldKey (a : Attributes String) : String :=
  propertyName a.name ++ (if a.isRequired then "" else "?")

mutual

def typeOf : Kind String → String
  | .string => "string"
  | .boolean => "boolean"
  | .number => "number"
  | .date => dateType
  | .markdown => markdownType
  | .enum options => literalUnion options
  | .object target => target
  | .inlineObject fields => objectType (members fields)
  | .reference target => target
  | .list item => arrayOf (elementType item) (isUnion item)
  | .polymorphicList items typeField =>
    match items, elementTypes typeField items with
    | [item], [element] => arrayOf element (isUnion item)
    | [], _ => "never[]"
    | _, elements => arrayOf (" | ".intercalate elements) true
  | .other _ => "any"

def members : List Canonical.Field → List String
  | [] => []
  | ⟨a, kind⟩ :: rest => (fieldKey a ++ ": " ++ typeOf kind) :: members rest

def elementType : Canonical.Item → String
  | ⟨_, .string⟩ => "string"
  | ⟨_, .boolean⟩ => "boolean"
  | ⟨_, .object target⟩ => target
  | ⟨_, .enum options⟩ => literalUnion options
  | ⟨_, .inlineObject fields⟩ => objectType (members fields)

def elementTypes (typeField : String) : List Canonical.Item → List String
  | [] => []
  | ⟨_, .inlineObject fields⟩ :: rest =>
    bracedMembers (taggedMembers typeField fields (members fields)) :: elementTypes typeField rest
  | item :: rest => elementType item :: elementTypes typeField rest

end

def computedTypeOf : ComputedType → String
  | .string => "string"
  | .number => "number"
  | .boolean => "boolean"
  | .date => dateType
  | .json => "any"
  | .list => "any[]"

/-! ## Declarations -/

inductive Definition where
  | document (d : Canonical.Document)
  | object (o : Canonical.Object)

namespace Definition

def name : Definition → String
  | .document d => d.name
  | .object o => o.name

def description : Definition → Option String
  | .document d => d.description
  | .object o => o.description

def fields : Definition → List Canonical.Field
  | .document d => d.fields
  | .object o => o.fields

def computed : Definition → List ComputedField
  | .document d => d.computed
  | .object _ => []

end Definition

/-- What the comment of a field says: its description, and what tells its items apart. -/
def fieldNotes (f : Canonical.Field) : List String :=
  f.description.toList ++
    match f.kind with
    | .polymorphicList _ typeField => ["Items are discriminated by `" ++ typeField ++ "`"]
    | _ => []

def memberComment (notes : List String) : String :=
  if notes.isEmpty then "" else docComment "  " notes

def renderField (f : Canonical.Field) : String :=
  memberComment (fieldNotes f) ++ "  " ++ fieldKey f.toAttributes ++ ": " ++ typeOf f.kind ++ "\n"

def renderComputed (c : ComputedField) : String :=
  memberComment c.description.toList ++ "  " ++ propertyName c.name ++ ": " ++ computedTypeOf c.type ++ "\n"

def pathMember : String :=
  "  /** File path relative to the content directory */\n  " ++ idField ++ ": string\n"

def renderDefinition (d : Definition) : String :=
  (d.description.elim "" fun text => docComment "" [text])
    ++ "export type " ++ d.name ++ " = \x7b\n"
    ++ (match d with | .document _ => pathMember | .object _ => "")
    ++ "  " ++ typeNameField ++ ": " ++ stringLiteral d.name ++ "\n"
    ++ String.join (d.fields.map renderField)
    ++ String.join (d.computed.map renderComputed)
    ++ "\x7d"

structure Declaration where
  name : String
  text : String
  deriving DecidableEq

def declare (d : Definition) : Declaration := ⟨d.name, renderDefinition d⟩

structure Declarations where
  documents : List Declaration
  objects : List Declaration
  deriving DecidableEq

/-- Declares every document and object. Sorting makes the result independent of the order of
declaration and of discovery. -/
def render (s : Canonical.Schema) : Declarations where
  documents := s.documents.sorted.map fun d => declare (.document d)
  objects := s.objects.sorted.map fun o => declare (.object o)

end TypeScript

end TypedContent

import TypedContent.Json.Value
import TypedContent.Schema.Error

/-!
# Fields

A field of a document or object has attributes and a kind. As it is written its label is
optional; in the canonical schema every field has one. Everything else is the same in
both, so fields are parameterised by what their label is.

References to object and document types are held by name. `links` lists those of a list of
fields in reading order, looking through inline objects and list items.
-/

namespace TypedContent

structure Attributes (Label : Type) where
  name : String
  label : Label
  description : Option String := none
  default : Option Json := none
  required : Option Bool := none
  const : Option Json := none
  hidden : Option Bool := none

structure FieldOf (Label Kind : Type) extends Attributes Label where
  kind : Kind

inductive ItemKind (Field : Type) where
  | string
  | boolean
  | object (target : String)
  | enum (options : List String)
  | inlineObject (fields : List Field)

structure ItemOf (Field : Type) where
  labelField : Option String := none
  kind : ItemKind Field

inductive Kind (Label : Type) where
  | string
  | boolean
  | number
  | date
  | markdown
  | enum (options : List String)
  | object (target : String)
  | inlineObject (fields : List (FieldOf Label (Kind Label)))
  | reference (target : String)
  | list (item : ItemOf (FieldOf Label (Kind Label)))
  | polymorphicList (items : List (ItemOf (FieldOf Label (Kind Label)))) (typeField : String)
  | other (name : String)

abbrev Field (Label : Type) : Type := FieldOf Label (Kind Label)

abbrev Item (Label : Type) : Type := ItemOf (Field Label)

variable {Label : Type}

def Attributes.isRequired (a : Attributes Label) : Bool := a.required.getD false

def Kind.typeName : Kind Label → String
  | .string => "string"
  | .boolean => "boolean"
  | .number => "number"
  | .date => "date"
  | .markdown => "markdown"
  | .enum _ => "enum"
  | .object _ => "object"
  | .inlineObject _ => "inline_object"
  | .reference _ => "reference"
  | .list _ => "list"
  | .polymorphicList _ _ => "polymorphic_list"
  | .other name => name

def ItemKind.typeName {F : Type} : ItemKind F → String
  | .string => "string"
  | .boolean => "boolean"
  | .object _ => "object"
  | .enum _ => "enum"
  | .inlineObject _ => "inline_object"

def findField? (name : String) (fields : List (Field Label)) : Option (Field Label) :=
  fields.find? (·.name = name)

/-! ## References -/

/-- A reference to a definition of the given table: the field that makes it, and the name
it looks for. -/
structure Link where
  table : TableKind
  field : String
  target : String
  deriving DecidableEq

mutual

/-- The references of a kind, made by the field of the given name. -/
def Kind.links (field : String) : Kind Label → List Link
  | .object target => [⟨.object, field, target⟩]
  | .reference target => [⟨.document, field, target⟩]
  | .inlineObject fields => links fields
  | .list ⟨_, .object target⟩ => [⟨.object, field, target⟩]
  | .list ⟨_, .inlineObject fields⟩ => links fields
  | .polymorphicList items _ => itemLinks field items
  | _ => []

def links : List (Field Label) → List Link
  | [] => []
  | ⟨a, kind⟩ :: rest => kind.links a.name ++ links rest

def itemLinks (field : String) : List (Item Label) → List Link
  | [] => []
  | ⟨_, .object target⟩ :: rest => ⟨.object, field, target⟩ :: itemLinks field rest
  | ⟨_, .inlineObject fields⟩ :: rest => links fields ++ itemLinks field rest
  | ⟨_, _⟩ :: rest => itemLinks field rest

end

/-! ## Names that are written twice -/

mutual

/-- No level inside a kind repeats a field name; `path` leads to the field of this kind. -/
def Kind.checkNames (path : String) : Kind Label → Except SchemaError Unit
  | .inlineObject fields => checkNames path [] fields
  | .list ⟨_, .inlineObject fields⟩ => checkNames path [] fields
  | .polymorphicList items _ => checkItemNames path items
  | _ => .ok ()

/-- No level of the fields repeats a name, and this level none of those seen before. -/
def checkNames (owner : String) (seen : List String) : List (Field Label) → Except SchemaError Unit
  | [] => .ok ()
  | ⟨a, kind⟩ :: rest =>
    if a.name ∈ seen then .error (.duplicateField owner a.name)
    else do
      kind.checkNames (owner ++ "." ++ a.name)
      checkNames owner (a.name :: seen) rest

def checkItemNames (path : String) : List (Item Label) → Except SchemaError Unit
  | [] => .ok ()
  | ⟨_, .inlineObject fields⟩ :: rest => do
    checkNames path [] fields
    checkItemNames path rest
  | ⟨_, _⟩ :: rest => checkItemNames path rest

end

end TypedContent

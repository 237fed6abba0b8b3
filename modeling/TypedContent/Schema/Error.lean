import TypedContent.Text.Quoted

/-!
# What can be wrong with a schema
-/

namespace TypedContent

inductive TableKind where
  | document
  | object
  deriving DecidableEq

def TableKind.text : TableKind → String
  | .document => "document"
  | .object => "object"

inductive FieldFlaw where
  | noOptions
  | noObject
  | noDocument
  | noItem
  | manyItems
  | noItems
  | noTypeField
  deriving DecidableEq

def FieldFlaw.text : FieldFlaw → String
  | .noOptions => "enum field requires `options`"
  | .noObject => "object field requires `object`"
  | .noDocument => "reference field requires `document`"
  | .noItem => "list field requires `of`"
  | .manyItems => "list field takes a single item descriptor in `of`"
  | .noItems => "polymorphic_list field requires `of`"
  | .noTypeField => "polymorphic_list field requires `typeField`"

inductive SchemaError where
  | unresolvedObject (owner field target : String)
  | unresolvedDocument (owner field target : String)
  | duplicateName (table : TableKind) (name : String)
  | nameClash (name : String)
  /-- Two fields of one level share a name; the owner is the path to that level. -/
  | duplicateField (owner field : String)
  | invalidName (table : TableKind) (name : String)
  /-- A field is named like a property that every generated type has. -/
  | reservedField (owner field : String)
  | invalidField (field : String) (flaw : FieldFlaw)
  deriving DecidableEq

open Text in
def SchemaError.message : SchemaError → String
  | .unresolvedObject owner field target =>
    "field " ++ ticked field ++ " of " ++ ticked owner ++ " refers to unknown object type " ++ ticked target
  | .unresolvedDocument owner field target =>
    "field " ++ ticked field ++ " of " ++ ticked owner ++ " refers to unknown document type " ++ ticked target
  | .duplicateName table name => table.text ++ " type " ++ ticked name ++ " is defined more than once"
  | .nameClash name => ticked name ++ " is defined both as a document type and as an object type"
  | .duplicateField owner field => "field " ++ ticked field ++ " is defined more than once in " ++ ticked owner
  | .invalidName table name => table.text ++ " type name " ++ ticked name ++ " is not a valid identifier"
  | .reservedField owner field =>
    "field " ++ ticked field ++ " of " ++ ticked owner ++ " collides with a generated property"
  | .invalidField field flaw => "field " ++ ticked field ++ ": " ++ flaw.text

end TypedContent

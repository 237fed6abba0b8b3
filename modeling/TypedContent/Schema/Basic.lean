import TypedContent.Schema.Definition
import TypedContent.TypeScript.Name

/-!
# Schemas

A schema holds document and object types by name. Definitions are checked one by one as
they are added, in place: the checks come first and the table of the definition last. References
are not looked at: their targets may be added later.
-/

namespace TypedContent

inductive Addition where
  | document (d : DocumentType)
  | object (o : ObjectType)

structure Schema where
  documents : Table DocumentType
  objects : Table ObjectType

namespace Schema

def empty : Schema := ⟨.empty .document, .empty .object⟩

def documentReserved : List String := [TypeScript.idField, TypeScript.typeNameField]

def objectReserved : List String := [TypeScript.typeNameField]

/-- A definition's name becomes the name of a type and part of a constant's name. -/
def checkName (table : TableKind) (name : String) : Except SchemaError Unit :=
  if TypeScript.isIdentifier name then .ok () else .error (.invalidName table name)

def checkReserved (owner : String) (reserved : List String) (names : List String) : Except SchemaError Unit :=
  match names.find? (· ∈ reserved) with
  | some field => .error (.reservedField owner field)
  | none => .ok ()

def checkComputed (owner : String) (taken : List String) : List String → Except SchemaError Unit
  | [] => .ok ()
  | name :: rest =>
    if name ∈ taken then .error (.duplicateField owner name)
    else checkComputed owner (name :: taken) rest

def onDocuments (call : Building (Table DocumentType) Unit) : Building Schema Unit := ExceptT.mk do
  let s ← get
  let (outcome, documents) := call.run.run s.documents
  set { s with documents }
  return outcome

def onObjects (call : Building (Table ObjectType) Unit) : Building Schema Unit := ExceptT.mk do
  let s ← get
  let (outcome, objects) := call.run.run s.objects
  set { s with objects }
  return outcome

def registerDocument (d : DocumentType) : Building Schema Unit := do
  checkName .document d.name
  if (← get).objects.contains d.name then
    throw (.nameClash d.name)
  checkNames d.name [] d.fields
  let names := d.fields.map (·.name)
  let computed := d.computed.map (·.name)
  checkComputed d.name names computed
  checkReserved d.name documentReserved (names ++ computed)
  onDocuments (Table.register d)

def registerObject (o : ObjectType) : Building Schema Unit := do
  checkName .object o.name
  if (← get).documents.contains o.name then
    throw (.nameClash o.name)
  checkNames o.name [] o.fields
  checkReserved o.name objectReserved (o.fields.map (·.name))
  onObjects (Table.register o)

def addDocument (s : Schema) (d : DocumentType) : Except SchemaError Schema := (registerDocument d).result s

def addObject (s : Schema) (o : ObjectType) : Except SchemaError Schema := (registerObject o).result s

def register : Addition → Building Schema Unit
  | .document d => registerDocument d
  | .object o => registerObject o

/-- A call: its outcome, and the schema after it. -/
def perform (s : Schema) (a : Addition) : Except SchemaError Unit × Schema := (register a).run.run s

def resolves (s : Schema) (l : Link) : Bool :=
  match l.table with
  | .document => s.documents.contains l.target
  | .object => s.objects.contains l.target

/-- The error of a reference that looks for nothing, made by a field of `owner`. -/
def unresolved (owner : String) (l : Link) : SchemaError :=
  match l.table with
  | .document => .unresolvedDocument owner l.field l.target
  | .object => .unresolvedObject owner l.field l.target

end Schema

end TypedContent

import TypedContent.Reading.Buffer
import TypedContent.Schema.Written

/-!
# Fields and descriptors that have been kept

Item descriptors are kept before they are read, and the fields inside them are read from what has
been kept, as are the fields and descriptors inside those. A descriptor has its label beside the
members of its kind, and its kind is told by one of these members, wherever it stands.
-/

namespace TypedContent.Buffered

/-! ## One field -/

/-- A value in a field, with what it holds if it holds fields or descriptors. -/
structure Opened where
  value : Buffered
  fields : Unit → Option (List SourceField)
  descriptors : Unit → Option Descriptors

namespace Opened

def nullable? {α : Type} (read : Opened → Option α) (v : Opened) : Option (Option α) :=
  match v.value with
  | .null => some none
  | _ => some <$> read v

def string? (v : Opened) : Option String := v.value.string?

def json? (v : Opened) : Option Json := some v.value.json

end Opened

/-- A member of a field, and how its value is put into what has been read. -/
abbrev Filler := String × (WrittenField → Opened → Option WrittenField)

def nullableFiller {α : Type} (key : String) (read : Opened → Option α)
    (store : WrittenField → Option α → WrittenField) : Filler :=
  (key, fun w v => store w <$> v.nullable? read)

/-- The members of a field, in the order of its array form. -/
def fieldFillers : List Filler := [
  ("type", fun w v => ({ w with type := · }) <$> v.string?),
  nullableFiller "label" Opened.string? ({ · with label := · }),
  nullableFiller "description" Opened.string? ({ · with description := · }),
  nullableFiller "default" Opened.json? ({ · with default := · }),
  nullableFiller "required" (·.value.bool?) ({ · with required := · }),
  nullableFiller "const" Opened.json? ({ · with const := · }),
  nullableFiller "hidden" (·.value.bool?) ({ · with hidden := · }),
  nullableFiller "options" (·.value.strings?) ({ · with options := · }),
  nullableFiller "object" Opened.string? ({ · with object := · }),
  nullableFiller "document" Opened.string? ({ · with document := · }),
  nullableFiller "fields" (·.fields ()) ({ · with fields := · }),
  nullableFiller "of" (·.descriptors ()) ({ · with of := · }),
  nullableFiller "typeField" Opened.string? ({ · with typeField := · })]

/-! ## One descriptor -/

/-- The kinds of items, which may also be told by their place here. -/
def itemKinds : List String := ["string", "boolean", "object", "enum", "inline_object"]

def kindName? : Buffered → Option String
  | .str s => some s
  | .num (.int n) => if n < 0 then none else itemKinds[n.toNat]?
  | _ => none

/-- The kind of an item, from the members that are left for it and the fields that stand among them. -/
def itemKind? (name : String) (members : List (String × Buffered))
    (fields : List (Unit → Option (List SourceField))) : Option (ItemKind SourceField) :=
  match name with
  | "string" => some .string
  | "boolean" => some .boolean
  | "object" => .object <$> once? string? "object" members
  | "enum" => .enum <$> once? strings? "options" members
  | "inline_object" =>
    match fields with
    | [read] => .inlineObject <$> read ()
    | _ => none
  | _ => none

/-- The label is taken out first, and the kind is told by what is left. -/
def item? (members : List (String × Buffered)) (fields : List (Unit → Option (List SourceField))) :
    Option SourceItem := do
  let labelField ← optional? string? "labelField" members
  let flat := members.filter (·.1 ≠ "labelField")
  let name ← once? kindName? "type" flat
  let kind ← itemKind? name (flat.filter (·.1 ≠ "type")) fields
  return { labelField, kind }

/-! ## Fields and descriptors -/

mutual

def fields? : Buffered → Option (List SourceField)
  | .obj members => do (toFields (← entries? members)).toOption
  | _ => none
termination_by structural b => b

def entries? : List (String × Buffered) → Option (List (String × WrittenField))
  | [] => some []
  | (name, b) :: rest => do
    let w ← field? b
    return (name, w) :: (← entries? rest)
termination_by structural members => members

def field? : Buffered → Option WrittenField
  | .obj members => do
    let (keys, w) ← fillMembers? ([], {}) members
    if "type" ∈ keys then some w else none
  | .arr items => fillItems? fieldFillers {} items
  | _ => none
termination_by structural b => b

/-- Members with other keys are passed over; a known key is not written twice. -/
def fillMembers? : List String × WrittenField → List (String × Buffered) → Option (List String × WrittenField)
  | read, [] => some read
  | (keys, w), (key, b) :: rest =>
    match fieldFillers.find? (·.1 = key) with
    | none => fillMembers? (keys, w) rest
    | some (_, fill) => do
      if key ∈ keys then none
      let w ← fill w ⟨b, fun _ => fields? b, fun _ => descriptors? b⟩
      fillMembers? (key :: keys, w) rest
termination_by structural _ members => members

def fillItems? : List Filler → WrittenField → List Buffered → Option WrittenField
  | [], w, [] => some w
  | (_, fill) :: fillers, w, b :: rest => do
    let w ← fill w ⟨b, fun _ => fields? b, fun _ => descriptors? b⟩
    fillItems? fillers w rest
  | _, _, _ => none
termination_by structural _ _ items => items

/-- An array is tried as several descriptors. It is not one, and what is one is no array. -/
def descriptors? : Buffered → Option Descriptors
  | .arr items => .many <$> items? items
  | .obj members => .one <$> item? members (fieldsAmong members)
  | _ => none
termination_by structural b => b

def items? : List Buffered → Option (List SourceItem)
  | [] => some []
  | .obj members :: rest => do
    let item ← item? members (fieldsAmong members)
    return item :: (← items? rest)
  | _ :: _ => none
termination_by structural items => items

/-- The fields of each member that is called so. -/
def fieldsAmong : List (String × Buffered) → List (Unit → Option (List SourceField))
  | [] => []
  | (key, b) :: rest => if key = "fields" then (fun _ => fields? b) :: fieldsAmong rest else fieldsAmong rest
termination_by structural members => members

end

end TypedContent.Buffered

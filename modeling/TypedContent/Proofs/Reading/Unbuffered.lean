import TypedContent.Schema.Read

/-!
# Descriptors without a buffer

What item descriptors say can be read off the tree of the text as well, with the readers that stream,
as if nothing had to be kept. It is easier to reason about, and it is the same (`readDescriptors_eq`).
-/

namespace TypedContent

def valuesOf (key : String) : List (Tree × Tree) → List Tree
  | [] => []
  | (.str k, value) :: rest => if k = key then value :: valuesOf key rest else valuesOf key rest
  | _ :: rest => valuesOf key rest

def readOnce {α : Type} (read : Reader α) (key : String) (members : List (Tree × Tree)) : Option α :=
  match valuesOf key members with
  | [value] => (read value).toOption
  | _ => none

def readOptional {α : Type} (read : Reader α) (key : String) (members : List (Tree × Tree)) :
    Option (Option α) :=
  match valuesOf key members with
  | [] => some none
  | [value] => (readNullable read value).toOption
  | _ => none

/-- The type of a descriptor: its name, or its place among the names. -/
def descriptorType? : Tree → Option String
  | .str s => some s
  | .num (.int n) =>
    if n < 0 then none else ["string", "boolean", "object", "enum", "inline_object"][n.toNat]?
  | _ => none

/-- One descriptor. Members that its type does not use are not looked at. -/
def readDescriptor (levels : Nat) (fields : Reader (List SourceField)) : Tree → Option SourceItem
  | .obj members _ => do
    let labelField ← readOptional readString "labelField" members
    let kind ← match valuesOf "type" members with
      | [type] =>
        match descriptorType? type with
        | some "string" => some .string
        | some "boolean" => some .boolean
        | some "object" => .object <$> readOnce readString "object" members
        | some "enum" => .enum <$> readOnce (readSequence (levels - 1) readString) "options" members
        | some "inline_object" => .inlineObject <$> readOnce fields "fields" members
        | _ => none
      | _ => none
    return { labelField, kind }
  | _ => none

/-- The descriptors of a list field, given the readers of the fields of a descriptor inside
an array and of one that stands alone. -/
def describe (levels : Nat) (inArray alone : Reader (List SourceField)) : Reader Descriptors := fun t => do
  let _ ← readJson levels t
  let read := match t with
    | .arr items _ => .many <$> items.mapM (readDescriptor (levels - 1) inArray)
    | t => .one <$> readDescriptor levels alone t
  match read with
  | some descriptors => .ok descriptors
  | none => .error (.shape .noDescriptors)

end TypedContent

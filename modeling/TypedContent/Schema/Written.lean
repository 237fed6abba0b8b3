import TypedContent.Reading.Error
import TypedContent.Schema.Basic

/-!
# Fields as they are written

A field is written with its kind as a name and with members that the kind may or may not use. It
becomes a field of the schema once all of it has been read, whether from a text or from a buffer.
-/

namespace TypedContent

/-- The item descriptors of a list field: one, or an array of them. -/
inductive Descriptors where
  | one (item : SourceItem)
  | many (items : List SourceItem)

/-- A field as it is written, its kind given by a name and by members that the kind may or
may not use. -/
structure WrittenField where
  type : String := ""
  label : Option String := none
  description : Option String := none
  default : Option Json := none
  required : Option Bool := none
  const : Option Json := none
  hidden : Option Bool := none
  options : Option (List String) := none
  object : Option String := none
  document : Option String := none
  fields : Option (List SourceField) := none
  of : Option Descriptors := none
  typeField : Option String := none

def require {α : Type} (flaw : FieldFlaw) : Option α → Except FieldFlaw α
  | some a => .ok a
  | none => .error flaw

def WrittenField.kind (w : WrittenField) : Except FieldFlaw (Kind (Option String)) :=
  match w.type with
  | "string" => .ok .string
  | "boolean" => .ok .boolean
  | "number" => .ok .number
  | "date" => .ok .date
  | "markdown" => .ok .markdown
  | "enum" => .enum <$> require .noOptions w.options
  | "object" => .object <$> require .noObject w.object
  | "inline_object" => .ok (.inlineObject (w.fields.getD []))
  | "reference" => .reference <$> require .noDocument w.document
  | "list" =>
    match w.of with
    | some (.one item) => .ok (.list item)
    | some (.many _) => .error .manyItems
    | none => .error .noItem
  | "polymorphic_list" => do
    let items ← match w.of with
      | some (.many items) => .ok items
      | some (.one item) => .ok [item]
      | none => .error .noItems
    return .polymorphicList items (← require .noTypeField w.typeField)
  | other => .ok (.other other)

def WrittenField.toField (name : String) (w : WrittenField) : Except SchemaError SourceField :=
  match w.kind with
  | .error flaw => .error (.invalidField name flaw)
  | .ok kind =>
    .ok
      { name, kind
        label := w.label
        description := w.description
        default := w.default
        required := w.required
        const := w.const
        hidden := w.hidden }

def toFields : List (String × WrittenField) → Except ReadError (List SourceField)
  | [] => .ok []
  | (name, w) :: rest =>
    match w.toField name with
    | .error e => .error (.schema e)
    | .ok field => do return field :: (← toFields rest)

end TypedContent

import TypedContent.Schema.Buffered

/-!
# Reading a schema

Fields are read from the text as it comes. Only the item descriptors of a list field are kept as
a whole before they are looked into, and whatever is wrong inside is the one error `noDescriptors`.
-/

namespace TypedContent

/-- The descriptors of a list field. What is wrong with the text is found while they are kept. -/
def readDescriptors (levels : Nat) : Reader Descriptors := fun t => do
  let kept ← orFault (t.buffer levels)
  match kept.descriptors? with
  | some descriptors => .ok descriptors
  | none => .error (.shape .noDescriptors)

/-! ## Fields -/

/-- Reads a value of a member that may be null, and puts it into what has been read. -/
def nullableSlot {σ α : Type} (key : String) (read : Reader α) (store : σ → Option α → σ) : Slot σ :=
  ⟨key, .nullable, fun s t => (store s ·) <$> readNullable read t⟩

/-- A field, given the readers of nested fields and of item descriptors. -/
def fieldShape (levels : Nat) (fields : Reader (List SourceField)) (descriptors : Reader Descriptors) :
    Shape WrittenField where
  name := "RawFieldDef"
  slots := [
    ⟨"type", .required, fun w t => ({ w with type := · }) <$> readString t⟩,
    nullableSlot "label" readString ({ · with label := · }),
    nullableSlot "description" readString ({ · with description := · }),
    nullableSlot "default" (readJson levels) ({ · with default := · }),
    nullableSlot "required" readBool ({ · with required := · }),
    nullableSlot "const" (readJson levels) ({ · with const := · }),
    nullableSlot "hidden" readBool ({ · with hidden := · }),
    nullableSlot "options" (readSequence levels readString) ({ · with options := · }),
    nullableSlot "object" readString ({ · with object := · }),
    nullableSlot "document" readString ({ · with document := · }),
    nullableSlot "fields" fields ({ · with fields := · }),
    nullableSlot "of" descriptors ({ · with of := · }),
    nullableSlot "typeField" readString ({ · with typeField := · })]
  empty := {}

mutual

/-- The fields of a definition or an inline object. -/
def readFields : Nat → Reader (List SourceField)
  | 0 => fun t => readDefinitions 0 (fun _ => malformed) t >>= toFields
  | levels + 1 => fun t => readDefinitions (levels + 1) (readField levels) t >>= toFields

def readField : Nat → Reader WrittenField
  | 0 => readRecord 0 (fieldShape 0 (fun _ => malformed) (fun _ => malformed))
  | levels + 1 => readRecord (levels + 1) (fieldShape levels (readFields levels) (readDescriptors levels))

end

/-! ## Definitions -/

/-- A computed field without its name; its type is known once it has been read. -/
structure WrittenComputed where
  description : Option String := none
  type : ComputedType := .string
  resolve : String := ""

def computedShape (levels : Nat) : Shape WrittenComputed where
  name := "RawComputedField"
  slots := [
    nullableSlot "description" readString ({ · with description := · }),
    ⟨"type", .required, fun w t => ({ w with type := · }) <$> readVariant levels ComputedType.all t⟩,
    ⟨"resolve", .required, fun w t => ({ w with resolve := · }) <$> readString t⟩]
  empty := {}

def readComputed (levels : Nat) : Reader (List ComputedField) := fun t => do
  let entries ← readDefinitions levels (readRecord (levels - 1) (computedShape (levels - 2))) t
  return entries.map fun (name, w) => { name, description := w.description, type := w.type, resolve := w.resolve }

def documentShape (levels : Nat) : Shape DocumentType where
  name := "DocumentDef"
  slots := [
    nullableSlot "label" readString ({ · with label := · }),
    nullableSlot "description" readString ({ · with description := · }),
    nullableSlot "labelField" readString ({ · with labelField := · }),
    nullableSlot "fileType" (readVariant levels FileType.all) ({ · with fileType := · }),
    nullableSlot "isSingleton" readBool ({ · with isSingleton := · }),
    ⟨"fields", .defaulted, fun d t => ({ d with fields := · }) <$> readFields levels t⟩,
    ⟨"computedFields", .defaulted, fun d t => ({ d with computed := · }) <$> readComputed levels t⟩]
  empty := { name := "" }

def objectShape (levels : Nat) : Shape ObjectType where
  name := "ObjectDef"
  slots := [
    nullableSlot "label" readString ({ · with label := · }),
    nullableSlot "description" readString ({ · with description := · }),
    nullableSlot "labelField" readString ({ · with labelField := · }),
    ⟨"fields", .defaulted, fun o t => ({ o with fields := · }) <$> readFields levels t⟩]
  empty := { name := "" }

structure WrittenSchema where
  documents : List (String × DocumentType) := []
  objects : List (String × ObjectType) := []

def schemaShape (levels : Nat) : Shape WrittenSchema where
  name := "SchemaRepr"
  slots := [
    ⟨"documentTypes", .defaulted, fun w t => ({ w with documents := · }) <$>
      readDefinitions levels (readRecord (levels - 1) (documentShape (levels - 2))) t⟩,
    ⟨"objectTypes", .defaulted, fun w t => ({ w with objects := · }) <$>
      readDefinitions levels (readRecord (levels - 1) (objectShape (levels - 2))) t⟩]
  empty := {}

/-- Adds all objects and then all documents, each group in order. -/
def WrittenSchema.toSchema (w : WrittenSchema) : Except SchemaError Schema := do
  let s ← w.objects.foldlM (fun s (name, o) => s.addObject { o with name }) Schema.empty
  w.documents.foldlM (fun s (name, d) => s.addDocument { d with name }) s

/-- A schema. The checks on the whole run when all of it has been read. -/
def readSchema (levels : Nat) : Reader Schema := fun t => do
  let written ← readRecord levels (schemaShape (levels - 1)) t
  match written.toSchema with
  | .ok s => .ok s
  | .error e => .error (.schema e)

def Schema.ofText (text : String) : Except ReadError Schema := readText (readSchema nestingLimit) text

end TypedContent

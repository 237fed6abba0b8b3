import TypedContent.Reading.Error

/-!
# Reading values of a given shape

Readers go through a tree in text order and stop at the first thing that is wrong. A value
that is kept may open `nestingLimit` nested brackets. A reader of a bracketed value is told
how many may still be opened, and its inner readers have been told one fewer.

A record is written either as an object, whose members come in any order, or as an array
of its members in their fixed order. One description (`Shape`) serves both forms.
-/

namespace TypedContent

abbrev Reader (α : Type) := Tree → Except ReadError α

def nestingLimit : Nat := 127

def orFault {α : Type} : Except Fault α → Except ReadError α
  | .ok a => .ok a
  | .error f => .error (.fault f)

def malformed {α : Type} : Except ReadError α := .error (.fault .malformed)

/-- What is wrong with a value of another type: its break, if it is broken. -/
def Tree.mismatch (expected : Expected) : Tree → ReadError
  | .broken _ kept _ => .fault kept
  | .null => .shape (.wrongType .null expected)
  | .bool b => .shape (.wrongType (.boolean b) expected)
  | .num n => .shape (.wrongType (.number n) expected)
  | .str s => .shape (.wrongType (.string s) expected)
  | .arr _ _ => .shape (.wrongType .sequence expected)
  | .obj _ _ => .shape (.wrongType .map expected)

def readString : Reader String
  | .str s => .ok s
  | t => .error (t.mismatch .string)

def readBool : Reader Bool
  | .bool b => .ok b
  | t => .error (t.mismatch .boolean)

def readJson (levels : Nat) : Reader Json := fun t => orFault (t.keep levels)

/-- A null reads as nothing, and what begins like one is not read as anything else. -/
def readNullable {α : Type} (read : Reader α) : Reader (Option α)
  | .null => .ok none
  | .broken (some 'n') kept _ => .error (.fault kept)
  | t => some <$> read t

def readItems {α : Type} (read : Reader α) : List Tree → Except ReadError (List α)
  | [] => .ok []
  | item :: rest => do
    let value ← read item
    return value :: (← readItems read rest)

def readSequence {α : Type} (levels : Nat) (read : Reader α) : Reader (List α)
  | .arr items stop =>
    if levels = 0 then malformed
    else do
      let values ← readItems read items
      orFault (Tree.unlessStop stop values)
  | t => .error (t.mismatch .sequence)

def readEntries {α : Type} (read : Reader α) :
    List (Tree × Tree) → Except ReadError (List (String × α))
  | [] => .ok []
  | (key, value) :: rest => do
    let name ← orFault key.key
    let a ← read value
    return (name, a) :: (← readEntries read rest)

/-- An object whose keys are names of the writer's choice. A name may stand there twice. -/
def readDefinitions {α : Type} (levels : Nat) (read : Reader α) : Reader (List (String × α))
  | .obj members stop =>
    if levels = 0 then malformed
    else do
      let entries ← readEntries read members
      orFault (Tree.unlessStop stop entries)
  | t => .error (t.mismatch .definitions)

/-! ## One of several names -/

def findVariant {α : Type} (known : List (String × α)) (name : String) : Except ReadError α :=
  match known.find? (·.1 = name) with
  | some (_, a) => .ok a
  | none => .error (.shape (.unknownVariant name (known.map (·.1))))

/-- One of the known names, written as a string or as an object with that one key and
null under it. -/
def readVariant {α : Type} (levels : Nat) (known : List (String × α)) : Reader α
  | .str s => findVariant known s
  | .obj members stop =>
    if levels = 0 then malformed
    else
      match members with
      | [] => (orFault (Tree.unlessStop stop ())).bind fun _ => malformed
      | (key, value) :: rest => do
        let a ← findVariant known (← orFault key.key)
        match value with
          | .null => .ok ()
          | t => .error (t.mismatch .unit)
        if rest.isEmpty then orFault (Tree.unlessStop stop a) else malformed
  | .broken none kept _ => .error (.fault kept)
  | .broken (some '"') kept _ => .error (.fault kept)
  | _ => malformed

/-! ## Records -/

inductive Presence where
  | required
  /-- It may be left out of the object, but has its place in the array. -/
  | nullable
  /-- It may be left out of the object, and of the array if nothing comes after it. -/
  | defaulted
  deriving DecidableEq

/-- A member of a record, and how its value is put into what has been read. -/
structure Slot (σ : Type) where
  key : String
  presence : Presence
  fill : σ → Reader σ

structure Shape (σ : Type) where
  name : String
  slots : List (Slot σ)
  empty : σ

namespace Shape

variable {σ : Type}

/-- Reads one member of the object form, given the keys read so far. Members with other
keys are passed over; a known key is not written twice. -/
def fillMember (shape : Shape σ) (read : List String × σ) (member : Tree × Tree) :
    Except ReadError (List String × σ) := do
  let key ← orFault member.1.key
  match shape.slots.find? (·.key = key) with
  | none =>
    orFault member.2.pass
    return read
  | some slot =>
    if key ∈ read.1 then .error (.shape (.duplicateKey key))
    else return (key :: read.1, ← slot.fill read.2 member.2)

def readObject (shape : Shape σ) (members : List (Tree × Tree)) (stop : Option Fault) :
    Except ReadError σ := do
  let (keys, value) ← members.foldlM shape.fillMember ([], shape.empty)
  orFault (Tree.unlessStop stop ())
  match shape.slots.find? fun slot => slot.presence = .required ∧ slot.key ∉ keys with
  | some slot => .error (.shape (.missingKey slot.key))
  | none => return value

/-- Reads the array form from the given slot on, `count` items having been read. -/
def readArray (shape : Shape σ) (stop : Option Fault) :
    List (Slot σ) → Nat → σ → List Tree → Except ReadError σ
  | [], _, value, [] => orFault (Tree.unlessStop stop value)
  | [], _, _, _ :: _ => malformed
  | slot :: slots, count, value, item :: items => do
    let value ← slot.fill value item
    readArray shape stop slots (count + 1) value items
  | slot :: slots, count, value, [] => do
    orFault (Tree.unlessStop stop ())
    if slot.presence = .defaulted then readArray shape stop slots count value []
    else .error (.shape (.wrongLength count shape.name shape.slots.length))

end Shape

def readRecord {σ : Type} (levels : Nat) (shape : Shape σ) : Reader σ
  | .obj members stop => if levels = 0 then malformed else shape.readObject members stop
  | .arr items stop =>
    if levels = 0 then malformed else shape.readArray stop shape.slots 0 shape.empty items
  | t => .error (t.mismatch (.record shape.name))

/-! ## Whole texts -/

def readText {α : Type} (read : Reader α) (text : String) : Except ReadError α := do
  let (tree, rest) := Tree.ofText text.toList
  let value ← read tree
  match rest with
  | some rest => if (Json.skipBlanks rest).isEmpty then return value else malformed
  | none => malformed

def Json.ofText (text : String) : Except ReadError Json := readText (readJson nestingLimit) text

end TypedContent

import TypedContent.Reading.Shape

/-!
# Values kept before they are read

Where one of several forms may stand, the value is first kept as a whole and the forms are then
tried on what has been kept. Everything that is written is kept: a key of an object as often as it
comes, each time with its value. No reader of a kept value is limited in how deep it goes, as the
brackets were counted while it was kept; and none says what is wrong, as the next form is tried.
-/

namespace TypedContent

inductive Buffered where
  | null
  | bool (value : Bool)
  | num (value : Number)
  | str (value : String)
  | arr (items : List Buffered)
  | obj (members : List (String × Buffered))

namespace Tree

mutual

/-- Keeps a value for later, which may open the given number of nested brackets. -/
def buffer : Nat → Tree → Except Fault Buffered
  | _, .null => .ok .null
  | _, .bool b => .ok (.bool b)
  | _, .num n => .ok (.num n)
  | _, .str s => .ok (.str s)
  | _, .broken _ kept _ => .error kept
  | 0, .arr _ _ => .error .malformed
  | 0, .obj _ _ => .error .malformed
  | levels + 1, .arr items stop => do
    let kept ← bufferItems levels items
    unlessStop stop (.arr kept)
  | levels + 1, .obj members stop => do
    let kept ← bufferMembers levels members
    unlessStop stop (.obj kept)

def bufferItems (levels : Nat) : List Tree → Except Fault (List Buffered)
  | [] => .ok []
  | item :: rest => do
    let kept ← buffer levels item
    return kept :: (← bufferItems levels rest)

def bufferMembers (levels : Nat) : List (Tree × Tree) → Except Fault (List (String × Buffered))
  | [] => .ok []
  | (key, value) :: rest => do
    let name ← key.key
    let kept ← buffer levels value
    return (name, kept) :: (← bufferMembers levels rest)

end

end Tree

namespace Buffered

def string? : Buffered → Option String
  | .str s => some s
  | _ => none

def bool? : Buffered → Option Bool
  | .bool b => some b
  | _ => none

def strings? : Buffered → Option (List String)
  | .arr items => items.mapM string?
  | _ => none

def nullable? {α : Type} (read : Buffered → Option α) : Buffered → Option (Option α)
  | .null => some none
  | b => some <$> read b

mutual

/-- The value as it is. Of members with one key the last is taken, in the place of the first. -/
def json : Buffered → Json
  | .null => .null
  | .bool b => .bool b
  | .num n => .num n
  | .str s => .str s
  | .arr items => .arr (jsonItems items)
  | .obj members => .obj (jsonMembers members [])
termination_by structural b => b

def jsonItems : List Buffered → List Json
  | [] => []
  | item :: rest => item.json :: jsonItems rest
termination_by structural items => items

def jsonMembers : List (String × Buffered) → List (String × Json) → List (String × Json)
  | [], done => done
  | (key, value) :: rest, done => jsonMembers rest (Json.put key value.json done)
termination_by structural members => members

end

/-! ## Members by name -/

def valuesAt (key : String) (members : List (String × Buffered)) : List Buffered :=
  (members.filter (·.1 = key)).map (·.2)

/-- A member that stands there once. -/
def once? {α : Type} (read : Buffered → Option α) (key : String) (members : List (String × Buffered)) : Option α :=
  match valuesAt key members with
  | [b] => read b
  | _ => none

/-- A member that may be left out. -/
def optional? {α : Type} (read : Buffered → Option α) (key : String) (members : List (String × Buffered)) :
    Option (Option α) :=
  match valuesAt key members with
  | [] => some none
  | [b] => nullable? read b
  | _ => none

end Buffered

end TypedContent

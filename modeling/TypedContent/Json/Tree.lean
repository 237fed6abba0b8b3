import TypedContent.Json.Scan

/-!
# The tree of a text that may be broken

Building the tree of a text never fails: where the text stops being JSON, the tree says
so in place. A reader then goes through the tree in text order and reports the first
thing that is wrong, a break of the text or a value of the wrong shape, whichever comes
first. A value can be read in two ways. Kept, it becomes a `Json` and may nest only so
deep; passed over, only its form matters.
-/

namespace TypedContent

/-- The tree of a text. `stop` tells how the text goes wrong where a comma or the closing
bracket should stand. A member's key is a tree too, as anything may stand there. -/
inductive Tree where
  | null
  | bool (value : Bool)
  | num (value : Number)
  | str (value : String)
  | arr (items : List Tree) (stop : Option Fault)
  | obj (members : List (Tree × Tree)) (stop : Option Fault)
  /-- No value that can be kept. `start` is its first character, none at the end of the
  text; `passed` is what is wrong when it is passed over, if anything is. -/
  | broken (start : Option Char) (kept : Fault) (passed : Option Fault)

namespace Tree

def faulty (start : Option Char) (fault : Fault) : Tree := .broken start fault (some fault)

/-! ## From text to tree

A parser gives the tree and what follows it; nothing follows a break that cannot be
passed over. -/

def parseWord (start : Char) (word : List Char) (value : Tree) (rest : List Char) :
    Tree × Option (List Char) :=
  match Json.scanWord word rest with
  | .ok rest => (value, some rest)
  | .error f => (.faulty (some start) f, none)

def parseString (rest : List Char) : Tree × Option (List Char) :=
  let (units, stop) := Json.scanString rest
  match Json.joinUnits units stop, stop with
  | .ok cs, stop => (.str (String.ofList cs), stop.toOption)
  | .error f, .ok rest => (.broken (some '"') f none, some rest)
  | .error f, .error g => (.broken (some '"') f (some g), none)

def parseNumber (start : Char) (text : List Char) : Tree × Option (List Char) :=
  match Json.scanNumeral text with
  | .error f => (.broken (some start) f (some .malformed), none)
  | .ok (numeral, rest) =>
    match numeral.value? with
    | some n => (.num n, some rest)
    | none => (.broken (some start) .malformed none, some rest)

def isText : Tree → Bool
  | .str _ => true
  | .broken (some '"') _ _ => true
  | _ => false

mutual

def parseValue : Nat → List Char → Tree × Option (List Char)
  | 0, _ => (.faulty none .truncated, none)
  | fuel + 1, text =>
    match Json.skipBlanks text with
    | [] => (.faulty none .truncated, none)
    | c :: rest =>
      if c = '[' then
        match Json.skipBlanks rest with
        | [] => (.arr [] (some .truncated), none)
        | d :: after =>
          if d = ']' then (.arr [] none, some after)
          else
            let (items, stop, after) := parseItems fuel (d :: after)
            (.arr items stop, after)
      else if c = '\x7b' then
        match Json.skipBlanks rest with
        | [] => (.obj [] (some .truncated), none)
        | d :: after =>
          if d = '\x7d' then (.obj [] none, some after)
          else
            let (members, stop, after) := parseMembers fuel (d :: after)
            (.obj members stop, after)
      else if c = '"' then parseString rest
      else if c = 'n' then parseWord c ['u', 'l', 'l'] .null rest
      else if c = 't' then parseWord c ['r', 'u', 'e'] (.bool true) rest
      else if c = 'f' then parseWord c ['a', 'l', 's', 'e'] (.bool false) rest
      else if c = '-' ∨ Json.isDigit c then parseNumber c (c :: rest)
      else (.faulty (some c) .malformed, none)

def parseItems : Nat → List Char → List Tree × Option Fault × Option (List Char)
  | 0, _ => ([], some .truncated, none)
  | fuel + 1, text =>
    match parseValue fuel text with
    | (item, none) => ([item], none, none)
    | (item, some rest) =>
      match Json.skipBlanks rest with
      | [] => ([item], some .truncated, none)
      | c :: rest =>
        if c = ',' then
          let (items, stop, after) := parseItems fuel rest
          (item :: items, stop, after)
        else if c = ']' then ([item], none, some rest)
        else ([item], some .malformed, none)

def parseMembers : Nat → List Char → List (Tree × Tree) × Option Fault × Option (List Char)
  | 0, _ => ([], some .truncated, none)
  | fuel + 1, text =>
    match parseValue fuel text with
    | (key, none) => ([(key, .faulty none .truncated)], none, none)
    | (key, some rest) =>
      if !key.isText then ([(key, .faulty none .malformed)], none, none)
      else
        match Json.skipBlanks rest with
        | [] => ([(key, .faulty none .truncated)], none, none)
        | c :: rest =>
          if c ≠ ':' then ([(key, .faulty (some c) .malformed)], none, none)
          else
            match parseValue fuel rest with
            | (value, none) => ([(key, value)], none, none)
            | (value, some rest) =>
              match Json.skipBlanks rest with
              | [] => ([(key, value)], some .truncated, none)
              | c :: rest =>
                if c = ',' then
                  let (members, stop, after) := parseMembers fuel rest
                  ((key, value) :: members, stop, after)
                else if c = '\x7d' then ([(key, value)], none, some rest)
                else ([(key, value)], some .malformed, none)

end

/-- The tree of a whole text and what follows it. A container takes two steps for its one
bracket, so twice the length is enough. -/
def ofText (text : List Char) : Tree × Option (List Char) :=
  parseValue (2 * text.length + 2) text

/-! ## Reading a tree -/

def unlessStop {α : Type} (stop : Option Fault) (value : α) : Except Fault α :=
  match stop with
  | none => .ok value
  | some f => .error f

def key : Tree → Except Fault String
  | .str s => .ok s
  | .broken none f _ => .error f
  | .broken (some '"') f _ => .error f
  | _ => .error .malformed

def passKey : Tree → Except Fault Unit
  | .str _ => .ok ()
  | .broken none _ passed => unlessStop passed ()
  | .broken (some '"') _ passed => unlessStop passed ()
  | _ => .error .malformed

mutual

def pass : Tree → Except Fault Unit
  | .arr items stop => do
    passItems items
    unlessStop stop ()
  | .obj members stop => do
    passMembers members
    unlessStop stop ()
  | .broken _ _ passed => unlessStop passed ()
  | _ => .ok ()

def passItems : List Tree → Except Fault Unit
  | [] => .ok ()
  | item :: rest => do
    item.pass
    passItems rest

def passMembers : List (Tree × Tree) → Except Fault Unit
  | [] => .ok ()
  | (key, value) :: rest => do
    key.passKey
    value.pass
    passMembers rest

end

mutual

/-- Keeps a value, which may open the given number of nested brackets. -/
def keep : Nat → Tree → Except Fault Json
  | _, .null => .ok .null
  | _, .bool b => .ok (.bool b)
  | _, .num n => .ok (.num n)
  | _, .str s => .ok (.str s)
  | _, .broken _ kept _ => .error kept
  | 0, .arr _ _ => .error .malformed
  | 0, .obj _ _ => .error .malformed
  | levels + 1, .arr items stop => do
    let values ← keepItems levels items
    unlessStop stop (.arr values)
  | levels + 1, .obj members stop => do
    let values ← keepMembers levels members []
    unlessStop stop (.obj values)

def keepItems (levels : Nat) : List Tree → Except Fault (List Json)
  | [] => .ok []
  | item :: rest => do
    let value ← keep levels item
    return value :: (← keepItems levels rest)

def keepMembers (levels : Nat) :
    List (Tree × Tree) → List (String × Json) → Except Fault (List (String × Json))
  | [], done => .ok done
  | (key, value) :: rest, done => do
    let name ← key.key
    let value ← keep levels value
    keepMembers levels rest (Json.put name value done)

end

end Tree

end TypedContent

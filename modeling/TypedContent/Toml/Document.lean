import TypedContent.Toml.Scan
import TypedContent.Toml.Value

/-!
# TOML documents

A document is read line by line: a header opens a table, and a pair goes into the table
that is open.
-/

namespace TypedContent

namespace Toml

/-- Arrays and inline tables nest less deep than this, and keys have fewer parts. -/
def nestingLimit : Nat := 80

def isBareKey (c : Char) : Bool :=
  ('a' ≤ c && c ≤ 'z') || ('A' ≤ c && c ≤ 'Z') || isDigit c || c == '_' || c == '-'

def scanKeyPart (text : List Char) : Option (String × List Char) :=
  match text with
  | [] => none
  | c :: rest =>
    if c = '"' then (scanBasic (rest.length + 1) rest).map fun (cs, rest) => (String.ofList cs, rest)
    else if c = '\'' then (scanLiteral rest).map fun (cs, rest) => (String.ofList cs, rest)
    else if isBareKey c then some (String.ofList (text.takeWhile isBareKey), text.dropWhile isBareKey)
    else none

/-- The parts of a key, with dots between them and blanks around each. -/
def scanKeyParts : Nat → Scanner (List String)
  | 0, _ => none
  | fuel + 1, text => do
    let (part, text) ← scanKeyPart (skipBlanks text)
    match skipBlanks text with
    | '.' :: rest => do
      let (parts, rest) ← scanKeyParts fuel rest
      return (part :: parts, rest)
    | rest => return ([part], rest)

def scanKey (text : List Char) : Option ((List String × String) × List Char) := do
  let (parts, rest) ← scanKeyParts (text.length + 1) text
  let last ← parts.getLast?
  if parts.length < nestingLimit then return ((parts.dropLast, last), rest) else none

def scanWord (word : List Char) (value : Toml) (text : List Char) : Option (Toml × List Char) :=
  if word.isPrefixOf text then some (value, text.drop word.length) else none

def scanNumeric (text : List Char) : Option (Toml × List Char) :=
  if looksLikeDate text || looksLikeTime text then (scanMoment text).map (.moment, ·)
  else if looksLikeFloat text then (scanFloat text).map (.float, ·)
  else
    match scanWord ['i', 'n', 'f'] .float (scanSign text).2, scanWord ['n', 'a', 'n'] .float (scanSign text).2 with
    | some found, _ => some found
    | none, some found => some found
    | none, none => (scanInteger text).map fun (n, rest) => (.integer n, rest)

mutual

def scanValue (depth : Nat) : Nat → Scanner Toml
  | 0, _ => none
  | _, [] => none
  | fuel + 1, c :: rest =>
    if c = '"' ∨ c = '\'' then (scanString (c :: rest)).map fun (s, rest) => (.string s, rest)
    else if c = '[' then
      if nestingLimit ≤ depth + 1 then none
      else do
        let (items, rest) ← scanItems (depth + 1) fuel (skipLines rest.length rest)
        return (.array items, rest)
    else if c = '\x7b' then
      if nestingLimit ≤ depth + 1 then none
      else
        match skipBlanks rest with
        | '\x7d' :: rest => some (.table .inline [], rest)
        | rest => do
          let (members, rest) ← scanPairs (depth + 1) fuel [] rest
          return (.table .inline members, rest)
    else if c = '+' ∨ c = '-' ∨ isDigit c then scanNumeric (c :: rest)
    else if c = 't' then scanWord ['t', 'r', 'u', 'e'] (.boolean true) (c :: rest)
    else if c = 'f' then scanWord ['f', 'a', 'l', 's', 'e'] (.boolean false) (c :: rest)
    else if c = 'i' then scanWord ['i', 'n', 'f'] .float (c :: rest)
    else if c = 'n' then scanWord ['n', 'a', 'n'] .float (c :: rest)
    else none

/-- The items of an array up to its closing bracket; a comma may follow the last. -/
def scanItems (depth : Nat) : Nat → Scanner (List Toml)
  | 0, _ => none
  | fuel + 1, text =>
    match text with
    | ']' :: rest => some ([], rest)
    | _ => do
      let (item, rest) ← scanValue depth fuel text
      match skipLines rest.length rest with
      | ',' :: rest => do
        let (items, rest) ← scanItems depth fuel (skipLines rest.length rest)
        return (item :: items, rest)
      | ']' :: rest => return ([item], rest)
      | _ => none

/-- The pairs of an inline table up to its closing brace; no comma follows the last. -/
def scanPairs (depth : Nat) : Nat → Members → Scanner Members
  | 0, _, _ => none
  | fuel + 1, members, text => do
    let ((path, key), rest) ← scanKey text
    match rest with
    | '=' :: rest => do
      let (value, rest) ← scanValue depth fuel (skipBlanks rest)
      let members ← insertPair path key value .inline members
      match skipBlanks rest with
      | ',' :: rest => scanPairs depth fuel members rest
      | '\x7d' :: rest => return (members, rest)
      | _ => none
    | _ => none

end

/-- A document while it is read: all members, and the path of the table that is open. -/
structure State where
  members : Members := []
  path : List String := []

def State.addPair (s : State) (path : List String) (key : String) (value : Toml) : Option State := do
  return { s with members := ← change .implicit (insertPair path key value) s.path .header s.members }

/-- A header in brackets, after the first bracket; what follows on its line. -/
def scanHeader (s : State) (text : List Char) : Option (State × List Char) :=
  match text with
  | '[' :: text => do
    let ((path, key), rest) ← scanKey text
    match rest with
    | ']' :: ']' :: rest => return (⟨← openTables path key s.members, path ++ [key]⟩, rest)
    | _ => none
  | _ => do
    let ((path, key), rest) ← scanKey text
    match rest with
    | ']' :: rest => return (⟨← openTable path key s.members, path ++ [key]⟩, rest)
    | _ => none

def scanPair (s : State) (text : List Char) : Option (State × List Char) := do
  let ((path, key), rest) ← scanKey text
  match rest with
  | '=' :: rest => do
    let (value, rest) ← scanValue 0 (2 * rest.length + 2) (skipBlanks rest)
    return (← s.addPair path key value, rest)
  | _ => none

def scanDocument : Nat → State → List Char → Option State
  | 0, _, _ => none
  | fuel + 1, s, text =>
    match skipLines text.length text with
    | [] => some s
    | '[' :: text => do
      let (s, rest) ← scanHeader s text
      scanDocument fuel s (← scanLineEnd rest)
    | text => do
      let (s, rest) ← scanPair s text
      scanDocument fuel s (← scanLineEnd rest)

def ofText (text : String) : Option Members :=
  let text := match text.toList with
    | '\ufeff' :: rest => rest
    | text => text
  (scanDocument (text.length + 1) {} text).map (·.members)

end Toml

end TypedContent

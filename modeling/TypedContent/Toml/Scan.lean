import TypedContent.Double.Basic

/-!
# The words of a TOML text

A scanner takes the characters that are left and gives what it has read and what follows,
or nothing if the text is not valid here.
-/

namespace TypedContent

namespace Toml

abbrev Scanner (α : Type) : Type := List Char → Option (α × List Char)

def isBlank (c : Char) : Bool := c == ' ' || c == '\t'

def skipBlanks (text : List Char) : List Char := text.dropWhile isBlank

/-- A character that may stand in a comment or a string as it is: no control but the tab. -/
def isPlain (c : Char) : Bool := c == '\t' || (32 ≤ c.toNat && c.toNat ≠ 127)

def scanNewline : List Char → Option (List Char)
  | '\n' :: rest => some rest
  | '\r' :: '\n' :: rest => some rest
  | _ => none

def skipComment : List Char → List Char
  | '#' :: rest => rest.dropWhile isPlain
  | text => text

/-- The rest of a line: blanks, a comment and the line end or the end of the text. -/
def scanLineEnd (text : List Char) : Option (List Char) :=
  match skipComment (skipBlanks text) with
  | [] => some []
  | text => scanNewline text

def skipLines : Nat → List Char → List Char
  | 0, text => text
  | fuel + 1, text =>
    let after := skipComment (skipBlanks text)
    match scanNewline after with
    | some rest => skipLines fuel rest
    | none => after

/-! ## Strings -/

def hexValue? (c : Char) : Option Nat :=
  if '0' ≤ c ∧ c ≤ '9' then some (c.toNat - '0'.toNat)
  else if 'a' ≤ c ∧ c ≤ 'f' then some (c.toNat - 'a'.toNat + 10)
  else if 'A' ≤ c ∧ c ≤ 'F' then some (c.toNat - 'A'.toNat + 10)
  else none

/-- The character that the given number of hexadecimal digits write. -/
def scanCode (digits : Nat) (text : List Char) : Option (Char × List Char) := do
  let written := text.take digits
  if written.length < digits then none
  let values ← written.mapM hexValue?
  let code := values.foldl (fun n d => n * 16 + d) 0
  if code < 0xd800 ∨ (0xdfff < code ∧ code < 0x110000) then
    return (Char.ofNat code, text.drop digits)
  else none

def scanEscape : Scanner Char
  | 'b' :: rest => some ('\x08', rest)
  | 't' :: rest => some ('\t', rest)
  | 'n' :: rest => some ('\n', rest)
  | 'f' :: rest => some ('\x0c', rest)
  | 'r' :: rest => some ('\r', rest)
  | '"' :: rest => some ('"', rest)
  | '\\' :: rest => some ('\\', rest)
  | 'u' :: rest => scanCode 4 rest
  | 'U' :: rest => scanCode 8 rest
  | _ => none

def scanBasic : Nat → Scanner (List Char)
  | 0, _ => none
  | _, [] => none
  | fuel + 1, c :: rest =>
    if c = '"' then some ([], rest)
    else if c = '\\' then do
      let (d, rest) ← scanEscape rest
      let (cs, rest) ← scanBasic fuel rest
      return (d :: cs, rest)
    else if isPlain c then do
      let (cs, rest) ← scanBasic fuel rest
      return (c :: cs, rest)
    else none

/-- A string on one line without escapes, after its opening quote. -/
def scanLiteral : Scanner (List Char)
  | [] => none
  | c :: rest =>
    if c = '\'' then some ([], rest)
    else if isPlain c then do
      let (cs, rest) ← scanLiteral rest
      return (c :: cs, rest)
    else none

def skipWhite : List Char → List Char
  | '\r' :: '\n' :: rest => skipWhite rest
  | c :: rest => if isBlank c || c == '\n' then skipWhite rest else c :: rest
  | [] => []

/-- A run of quotes inside a string of several lines: up to two belong to the string, three
close it, and the two may stand right before the three. Tells how many belong to the
string, and whether it is closed. -/
def quoteRun (count : Nat) : Nat × Bool :=
  if count < 3 then (count, false) else (min (count - 3) 2, true)

def scanLines (quote : Char) : Nat → Scanner (List Char)
  | 0, _ => none
  | _, [] => none
  | fuel + 1, c :: rest =>
    if c = quote then
      let (own, closed) := quoteRun ((c :: rest).takeWhile (· = quote)).length
      let quotes := List.replicate own quote
      if closed then some (quotes, (c :: rest).drop (own + 3))
      else do
        let (cs, rest) ← scanLines quote fuel ((c :: rest).drop own)
        return (quotes ++ cs, rest)
    else if c = '\\' ∧ quote = '"' then
      match scanNewline (skipBlanks rest) with
      | some rest => scanLines quote fuel (skipWhite rest)
      | none => do
        let (d, rest) ← scanEscape rest
        let (cs, rest) ← scanLines quote fuel rest
        return (d :: cs, rest)
    else
      match scanNewline (c :: rest) with
      | some rest => do
        let (cs, rest) ← scanLines quote fuel rest
        return ('\n' :: cs, rest)
      | none =>
        if isPlain c then do
          let (cs, rest) ← scanLines quote fuel rest
          return (c :: cs, rest)
        else none

/-- A string of any form that begins here. A line end right after three opening quotes does
not belong to the string. -/
def scanString (text : List Char) : Option (String × List Char) := do
  let (cs, rest) ← match text with
    | '"' :: '"' :: '"' :: rest => scanLines '"' (rest.length + 1) ((scanNewline rest).getD rest)
    | '\'' :: '\'' :: '\'' :: rest => scanLines '\'' (rest.length + 1) ((scanNewline rest).getD rest)
    | '"' :: rest => scanBasic (rest.length + 1) rest
    | '\'' :: rest => scanLiteral rest
    | _ => none
  return (String.ofList cs, rest)

/-! ## Numbers -/

def isDigit (c : Char) : Bool := '0' ≤ c && c ≤ '9'

def scanDigits (allowed : Char → Bool) : Scanner (List Char)
  | [] => none
  | c :: rest =>
    if allowed c then
      match rest with
      | '_' :: after => do
        let (cs, rest) ← scanDigits allowed after
        return (c :: cs, rest)
      | d :: after =>
        if allowed d then do
          let (cs, rest) ← scanDigits allowed (d :: after)
          return (c :: cs, rest)
        else some ([c], d :: after)
      | [] => some ([c], [])
    else none

def digitsValue (base : Nat) (digits : List Char) : Nat :=
  digits.foldl (fun n c => n * base + (hexValue? c).getD 0) 0

def scanSign : List Char → Option Bool × List Char
  | '+' :: rest => (some false, rest)
  | '-' :: rest => (some true, rest)
  | text => (none, text)

def scanWhole (text : List Char) : Option (List Char × List Char) :=
  match text with
  | '0' :: rest => some (['0'], rest)
  | _ => scanDigits isDigit text

def scanExponent (text : List Char) : Option (Int × List Char) :=
  match text with
  | c :: rest =>
    if c = 'e' ∨ c = 'E' then do
      let (sign, rest) := scanSign rest
      let (digits, rest) ← scanDigits isDigit rest
      let n : Int := digitsValue 10 digits
      return (if sign = some true then -n else n, rest)
    else some (0, text)
  | [] => some (0, [])

/-- Whether `digits * 10 ^ exponent` is beyond the largest double. Only a number with about
as many digits before the point as the largest double has to be computed. -/
def overflows (digits : List Char) (exponent : Int) : Bool :=
  let significant := digits.dropWhile (· == '0')
  let places : Int := significant.length + exponent
  if significant.isEmpty ∨ places < 300 then false
  else if 320 < places then true
  else
    let n := digitsValue 10 significant
    (Double.ofRatio (n * Nat.pow 10 exponent.toNat) (Nat.pow 10 (-exponent).toNat)).isInfinite

/-- A number with a fraction, an exponent or both. One that is too large is not valid,
unless it is negative. -/
def scanFloat (text : List Char) : Option (List Char) := do
  let (sign, text) := scanSign text
  let (whole, text) ← scanWhole text
  match text with
  | '.' :: text =>
    let (fraction, text) ← scanDigits isDigit text
    let (exponent, text) ← scanExponent text
    if sign ≠ some true ∧ overflows (whole ++ fraction) (exponent - fraction.length) then none
    else return text
  | c :: _ =>
    if c = 'e' ∨ c = 'E' then do
      let (exponent, text) ← scanExponent text
      if sign ≠ some true ∧ overflows whole exponent then none else return text
    else none
  | [] => none

/-- Whether a number that begins here has a fraction or an exponent. -/
def looksLikeFloat (text : List Char) : Bool :=
  match scanWhole (scanSign text).2 with
  | some (_, c :: _) => c = '.' || c = 'e' || c = 'E'
  | _ => false

/-- A signed 64-bit integer, the letter after its leading zero telling its base. -/
def scanInteger (text : List Char) : Option (Int × List Char) :=
  let based (base : Nat) (allowed : Char → Bool) (rest : List Char) : Option (Int × List Char) := do
    let (digits, rest) ← scanDigits allowed rest
    let n := digitsValue base digits
    if n < Nat.pow 2 63 then return (n, rest) else none
  match text with
  | '0' :: 'x' :: rest => based 16 (fun c => (hexValue? c).isSome) rest
  | '0' :: 'o' :: rest => based 8 (fun c => '0' ≤ c && c ≤ '7') rest
  | '0' :: 'b' :: rest => based 2 (fun c => c == '0' || c == '1') rest
  | _ => do
    let (sign, text) := scanSign text
    let (digits, rest) ← scanWhole text
    let n : Int := if sign = some true then -digitsValue 10 digits else digitsValue 10 digits
    if -(Nat.pow 2 63 : Int) ≤ n ∧ n < Nat.pow 2 63 then return (n, rest) else none

/-! ## Dates and times -/

def scanFixed (count : Nat) (text : List Char) : Option (Nat × List Char) :=
  let digits := text.take count
  if digits.length = count ∧ digits.all isDigit then some (digitsValue 10 digits, text.drop count) else none

def scanTwo (low high : Nat) (text : List Char) : Option (Nat × List Char) := do
  let (n, rest) ← scanFixed 2 text
  if low ≤ n ∧ n ≤ high then return (n, rest) else none

def scanChar (c : Char) : List Char → Option (List Char)
  | d :: rest => if c = d then some rest else none
  | [] => none

def daysIn (year month : Nat) : Nat :=
  if month = 2 then (if year % 4 = 0 ∧ (year % 100 ≠ 0 ∨ year % 400 = 0) then 29 else 28)
  else if month ∈ [4, 6, 9, 11] then 30
  else 31

def looksLikeDate (text : List Char) : Bool :=
  match scanFixed 4 text with
  | some (_, '-' :: _) => true
  | _ => false

def looksLikeTime (text : List Char) : Bool :=
  match scanTwo 0 23 text with
  | some (_, ':' :: _) => true
  | _ => false

def scanDate (text : List Char) : Option (List Char) := do
  let (year, text) ← scanFixed 4 text
  let text ← scanChar '-' text
  let (month, text) ← scanTwo 1 12 text
  let text ← scanChar '-' text
  let (_, text) ← scanTwo 1 (daysIn year month) text
  return text

def scanTime (text : List Char) : Option (List Char) := do
  let (_, text) ← scanTwo 0 23 text
  let text ← scanChar ':' text
  let (_, text) ← scanTwo 0 59 text
  let text ← scanChar ':' text
  let (_, text) ← scanTwo 0 60 text
  match text with
  | '.' :: c :: rest => if isDigit c then return rest.dropWhile isDigit else return text
  | _ => return text

def scanOffset : List Char → Option (List Char)
  | 'Z' :: rest => some rest
  | 'z' :: rest => some rest
  | c :: rest =>
    if c = '+' ∨ c = '-' then do
      let (_, rest) ← scanTwo 0 23 rest
      let rest ← scanChar ':' rest
      let (_, rest) ← scanTwo 0 59 rest
      return rest
    else some (c :: rest)
  | [] => some []

/-- A date, a time, or a date and a time with or without an offset. -/
def scanMoment (text : List Char) : Option (List Char) :=
  if looksLikeDate text then do
    let text ← scanDate text
    match text with
    | c :: rest =>
      if (c = 'T' ∨ c = 't' ∨ c = ' ') ∧ looksLikeTime rest then scanOffset (← scanTime rest)
      else return text
    | [] => return []
  else scanTime text

end Toml

end TypedContent

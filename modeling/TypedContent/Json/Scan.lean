import TypedContent.Json.Value

/-!
# The words of a JSON text

Each scanner takes the characters that are left and returns what follows. A string or a
number can be well formed and still denote nothing (`"\ud800"`, `1e400`), so scanning one
is split in two: its form, which decides where it ends, and its value.
-/

namespace TypedContent

/-- How a text fails to be JSON: at a character that cannot stand where it does, or
because it ends too early. -/
inductive Fault where
  | malformed
  | truncated
  deriving DecidableEq

namespace Json

def isBlank (c : Char) : Bool := c == ' ' || c == '\n' || c == '\t' || c == '\r'

def skipBlanks (text : List Char) : List Char := text.dropWhile isBlank

def scanWord : List Char → List Char → Except Fault (List Char)
  | [], rest => .ok rest
  | _ :: _, [] => .error .truncated
  | c :: cs, d :: rest => if c = d then scanWord cs rest else .error .malformed

/-! ## Strings -/

/-- One written unit of a string: a character, or a 16-bit code given by `\u`. -/
inductive StringUnit where
  | char (c : Char)
  | code (n : Nat)

def hexValue? (c : Char) : Option Nat :=
  if '0' ≤ c ∧ c ≤ '9' then some (c.toNat - '0'.toNat)
  else if 'a' ≤ c ∧ c ≤ 'f' then some (c.toNat - 'a'.toNat + 10)
  else if 'A' ≤ c ∧ c ≤ 'F' then some (c.toNat - 'A'.toNat + 10)
  else none

def hexCode? (a b c d : Char) : Option Nat := do
  return (((← hexValue? a) * 16 + (← hexValue? b)) * 16 + (← hexValue? c)) * 16 + (← hexValue? d)

def unescape? : Char → Option Char
  | '"' => some '"'
  | '\\' => some '\\'
  | '/' => some '/'
  | 'b' => some '\x08'
  | 'f' => some '\x0c'
  | 'n' => some '\n'
  | 'r' => some '\r'
  | 't' => some '\t'
  | _ => none

/-- Four digits are looked for in four bytes: a text that has four bytes left, digits or
not, is malformed and not truncated. -/
def shortHexFault (rest : List Char) : Fault :=
  if 4 ≤ rest.foldl (fun n c => n + c.utf8Size) 0 then .malformed else .truncated

/-- The units of a string up to its closing quote, and what follows the quote. -/
def scanString : List Char → List StringUnit × Except Fault (List Char)
  | [] => ([], .error .truncated)
  | '\\' :: 'u' :: a :: b :: c :: d :: rest =>
    match hexCode? a b c d with
    | some n => let (units, stop) := scanString rest; (.code n :: units, stop)
    | none => ([], .error .malformed)
  | '\\' :: 'u' :: rest => ([], .error (shortHexFault rest))
  | '\\' :: e :: rest =>
    match unescape? e with
    | some c => let (units, stop) := scanString rest; (.char c :: units, stop)
    | none => ([], .error .malformed)
  | ['\\'] => ([], .error .truncated)
  | c :: rest =>
    if c = '"' then ([], .ok rest)
    else if c.toNat < 32 then ([], .error .malformed)
    else let (units, stop) := scanString rest; (.char c :: units, stop)

def isLeading (n : Nat) : Bool := 0xd800 ≤ n && n ≤ 0xdbff

def isTrailing (n : Nat) : Bool := 0xdc00 ≤ n && n ≤ 0xdfff

/-- The characters of a string. A leading code and the trailing code right after it write
one character; alone, neither writes any. -/
def joinUnits : List StringUnit → Except Fault (List Char) → Except Fault (List Char)
  | [], .ok _ => .ok []
  | [], .error f => .error f
  | .char c :: units, stop => do return c :: (← joinUnits units stop)
  | .code n :: units, stop =>
    if isTrailing n then .error .malformed
    else if isLeading n then
      match units, stop with
      | .code m :: units, stop =>
        if isTrailing m then do
          return Char.ofNat (0x10000 + (n - 0xd800) * 0x400 + (m - 0xdc00)) :: (← joinUnits units stop)
        else .error .malformed
      | [], .error f => .error f
      | _, _ => .error .malformed
    else do return Char.ofNat n :: (← joinUnits units stop)

/-! ## Numbers -/

structure Numeral where
  negative : Bool
  whole : List Char
  fraction : Option (List Char)
  exponent : Option (Bool × List Char)

def isDigit (c : Char) : Bool := '0' ≤ c && c ≤ '9'

def scanDigits (text : List Char) : Except Fault (List Char × List Char) :=
  match text with
  | [] => .error .truncated
  | c :: _ => if isDigit c then .ok (text.takeWhile isDigit, text.dropWhile isDigit) else .error .malformed

/-- The digits before the point: no zero stands in front of another digit. -/
def scanWhole (text : List Char) : Except Fault (List Char × List Char) :=
  match text with
  | '0' :: rest =>
    match rest with
    | c :: _ => if isDigit c then .error .malformed else .ok (['0'], rest)
    | [] => .ok (['0'], rest)
  | _ => scanDigits text

def scanFraction : List Char → Except Fault (Option (List Char) × List Char)
  | '.' :: rest => do
    let (digits, rest) ← scanDigits rest
    return (some digits, rest)
  | text => .ok (none, text)

/-- The sign of an exponent: whether it is negative, and what follows. -/
def scanSign : List Char → Bool × List Char
  | '+' :: rest => (false, rest)
  | '-' :: rest => (true, rest)
  | text => (false, text)

def scanExponent (text : List Char) : Except Fault (Option (Bool × List Char) × List Char) :=
  match text with
  | c :: rest =>
    if c = 'e' ∨ c = 'E' then do
      let (negative, rest) := scanSign rest
      let (digits, rest) ← scanDigits rest
      return (some (negative, digits), rest)
    else .ok (none, text)
  | [] => .ok (none, text)

def scanNumeral (text : List Char) : Except Fault (Numeral × List Char) := do
  let (negative, text) := match text with
    | '-' :: rest => (true, rest)
    | _ => (false, text)
  let (whole, text) ← scanWhole text
  let (fraction, text) ← scanFraction text
  let (exponent, text) ← scanExponent text
  return (⟨negative, whole, fraction, exponent⟩, text)

def digitsValue (digits : List Char) : Nat :=
  digits.foldl (fun n c => n * 10 + (c.toNat - '0'.toNat)) 0

/-- The largest integer that is kept exact, and the largest significand of a double. -/
def largest : Nat := Nat.pow 2 64 - 1

/-- Appends digits to a significand while it stays in bounds; what is left over. -/
def appendDigits (significand : Nat) : List Char → Nat × List Char
  | [] => (significand, [])
  | c :: rest =>
    let next := significand * 10 + (c.toNat - '0'.toNat)
    if next ≤ largest then appendDigits next rest else (significand, c :: rest)

/-- The double a numeral writes. Digits beyond the largest significand count only by their
place. There is none when it is too large. -/
def Numeral.double? (n : Numeral) : Option Double :=
  let fraction := n.fraction.getD []
  let (significand, left) := appendDigits 0 n.whole
  let (significand, unused) := appendDigits significand fraction
  let places : Int := left.length - (fraction.length - unused.length : Nat)
  let exponent : Int := match n.exponent with
    | none => 0
    | some (true, digits) => -digitsValue digits
    | some (false, digits) => digitsValue digits
  (Double.ofDecimal significand (places + exponent)).map fun x => if n.negative then x.negate else x

/-- The number a numeral writes: an exact integer if it is written as one and in range. -/
def Numeral.value? (n : Numeral) : Option Number :=
  let whole := digitsValue n.whole
  if n.fraction.isNone ∧ n.exponent.isNone ∧ whole ≤ largest then
    if n.negative then
      if 0 < whole ∧ whole ≤ Nat.pow 2 63 then some (.int (-whole))
      else some (.double (Double.ofRatio whole 1).negate)
    else some (.int whole)
  else n.double?.map .double

end Json

end TypedContent

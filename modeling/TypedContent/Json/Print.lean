import TypedContent.Double.Shortest
import TypedContent.Json.Value

/-!
# JSON text

One printer serves both layouts: the compact one without any blanks, and the pretty one
that puts each item and member on its own line, two blanks further in.
-/

namespace TypedContent

namespace Json

def hexDigit (n : Nat) : Char := Nat.digitChar n

/-- A character inside a string: the quote, the backslash and the control characters
are escaped, all else stands for itself. -/
def escape (c : Char) : List Char :=
  if c = '"' then ['\\', '"']
  else if c = '\\' then ['\\', '\\']
  else if c.toNat < 32 then
    if c = '\x08' then ['\\', 'b']
    else if c = '\t' then ['\\', 't']
    else if c = '\n' then ['\\', 'n']
    else if c = '\x0c' then ['\\', 'f']
    else if c = '\r' then ['\\', 'r']
    else ['\\', 'u', '0', '0', hexDigit (c.toNat / 16), hexDigit (c.toNat % 16)]
  else [c]

def quote (s : String) : List Char := '"' :: (s.toList.flatMap escape ++ ['"'])

def printInt (n : Int) : List Char :=
  if n < 0 then '-' :: Nat.toDigits 10 n.natAbs else Nat.toDigits 10 n.natAbs

def printNumber : Number → List Char
  | .int n => printInt n
  | .double x => x.text

inductive Layout where
  | compact
  | pretty
  deriving DecidableEq

def Layout.lineBreak : Layout → Nat → List Char
  | .compact, _ => []
  | .pretty, depth => '\n' :: List.replicate (2 * depth) ' '

def Layout.colon : Layout → List Char
  | .compact => [':']
  | .pretty => [':', ' ']

mutual

def print (l : Layout) (depth : Nat) : Json → List Char
  | .null => ['n', 'u', 'l', 'l']
  | .bool true => ['t', 'r', 'u', 'e']
  | .bool false => ['f', 'a', 'l', 's', 'e']
  | .num n => printNumber n
  | .str s => quote s
  | .arr [] => ['[', ']']
  | .arr (x :: xs) =>
    '[' :: (l.lineBreak (depth + 1) ++ (print l (depth + 1) x ++ printItems l depth xs))
  | .obj [] => ['\x7b', '\x7d']
  | .obj ((k, x) :: ms) =>
    '\x7b' :: (l.lineBreak (depth + 1) ++
      (quote k ++ (l.colon ++ (print l (depth + 1) x ++ printMembers l depth ms))))

def printItems (l : Layout) (depth : Nat) : List Json → List Char
  | [] => l.lineBreak depth ++ [']']
  | x :: xs =>
    ',' :: (l.lineBreak (depth + 1) ++ (print l (depth + 1) x ++ printItems l depth xs))

def printMembers (l : Layout) (depth : Nat) : List (String × Json) → List Char
  | [] => l.lineBreak depth ++ ['\x7d']
  | (k, x) :: ms =>
    ',' :: (l.lineBreak (depth + 1) ++
      (quote k ++ (l.colon ++ (print l (depth + 1) x ++ printMembers l depth ms))))

end

def compact (v : Json) : String := String.ofList (print .compact 0 v)

def pretty (v : Json) : String := String.ofList (print .pretty 0 v)

end Json

end TypedContent

import TypedContent.Text.Formless

/-!
# Quoted texts in messages
-/

namespace TypedContent

namespace Text

/-- A character of a quoted text. The quote, the backslash and four controls have escapes
of one letter, and whatever has no form of its own is written `\u{…}` with the fewest
hexadecimal digits. -/
def escape (c : Char) : List Char :=
  if c = '\x00' then ['\\', '0']
  else if c = '\t' then ['\\', 't']
  else if c = '\r' then ['\\', 'r']
  else if c = '\n' then ['\\', 'n']
  else if c = '\\' then ['\\', '\\']
  else if c = '"' then ['\\', '"']
  else if isFormless c then ['\\', 'u', '\x7b'] ++ Nat.toDigits 16 c.toNat ++ ['\x7d']
  else [c]

def quoted (s : String) : String := String.ofList ('"' :: (s.toList.flatMap escape ++ ['"']))

def ticked (s : String) : String := "`" ++ s ++ "`"

end Text

end TypedContent

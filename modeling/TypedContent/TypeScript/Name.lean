/-!
# Names and literals of the generated TypeScript
-/

namespace TypedContent

namespace TypeScript

/-- The property that tells the types apart; every generated type has it. -/
def typeNameField : String := "_typeName"

/-- The property of every document type that holds the path of its file. -/
def idField : String := "_id"

def dateType : String := "IsoDateTimeString"

def markdownType : String := "Markdown"

def isAsciiLetter (c : Char) : Bool := ('a' ≤ c && c ≤ 'z') || ('A' ≤ c && c ≤ 'Z')

def isAsciiDigit (c : Char) : Bool := '0' ≤ c && c ≤ '9'

def startsIdentifier (c : Char) : Bool := isAsciiLetter c || c == '_' || c == '$'

def continuesIdentifier (c : Char) : Bool := startsIdentifier c || isAsciiDigit c

def isIdentifier (name : String) : Bool :=
  match name.toList with
  | [] => false
  | c :: rest => startsIdentifier c && rest.all continuesIdentifier

def escape (c : Char) : List Char :=
  if c = '\\' then ['\\', '\\']
  else if c = '\'' then ['\\', '\'']
  else if c = '\n' then ['\\', 'n']
  else [c]

def stringLiteral (value : String) : String :=
  String.ofList ('\'' :: (value.toList.flatMap escape ++ ['\'']))

def propertyName (name : String) : String :=
  if isIdentifier name then name else stringLiteral name

end TypeScript

end TypedContent

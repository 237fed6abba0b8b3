/-!
# Documentation comments

A comment stands on one line if its text has one line, and on a line of its own for each
line of the text otherwise. Nothing in the text can close it.
-/

namespace TypedContent

namespace TypeScript

/-- The lines of a text. A line ends with a line feed or with a carriage return and a line
feed; the text after the last line feed is a line unless it is empty. -/
def textLines : List Char → List (List Char)
  | [] => []
  | '\r' :: '\n' :: rest => [] :: textLines rest
  | '\n' :: rest => [] :: textLines rest
  | c :: rest =>
    match textLines rest with
    | line :: lines => (c :: line) :: lines
    | [] => [[c]]

def disarm : List Char → List Char
  | '*' :: '/' :: rest => '*' :: '\\' :: '/' :: disarm rest
  | c :: rest => c :: disarm rest
  | [] => []

/-- The comment of the given texts, each line beginning with the indentation. -/
def docComment (indent : String) (texts : List String) : String :=
  match (texts.flatMap fun t => textLines t.toList).map fun l => String.ofList (disarm l) with
  | [line] => indent ++ "/** " ++ line ++ " */\n"
  | lines =>
    indent ++ "/**\n" ++ String.join (lines.map fun l => indent ++ " * " ++ l ++ "\n") ++ indent ++ " */\n"

end TypeScript

end TypedContent

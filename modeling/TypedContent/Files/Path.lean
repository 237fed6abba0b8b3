/-!
# Paths

A path is kept as it was written, because messages show it so. What it means is the list
of its steps from the root or from the working directory.
-/

namespace TypedContent

namespace Path

def longestName : Nat := 255

def longestPath : Nat := 4095

def splitSlashes : List Char → List (List Char)
  | [] => [[]]
  | c :: rest =>
    if c = '/' then [] :: splitSlashes rest
    else
      match splitSlashes rest with
      | piece :: pieces => (c :: piece) :: pieces
      | [] => [[c]]

def isAbsolute (path : String) : Bool := path.toList.head? = some '/'

/-- The steps of a path. An empty piece stays where it is, like `.`. -/
def steps (path : String) : List String :=
  (splitSlashes path.toList).map fun piece => if piece.isEmpty then "." else String.ofList piece

/-- The steps that name something: `.` counts only at the start of a relative path. -/
def parts (path : String) : List String :=
  match path.toList, steps path with
  | '.' :: _, first :: rest => first :: rest.filter (· ≠ ".")
  | _, steps => steps.filter (· ≠ ".")

def dropTrailingSlashes (path : String) : String :=
  String.ofList (path.toList.reverse.dropWhile (· = '/')).reverse

def join (directory path : String) : String :=
  if isAbsolute path ∨ directory.isEmpty then path
  else if directory.toList.getLast? = some '/' then directory ++ path
  else directory ++ "/" ++ path

/-! ## Siblings -/

/-- The start of a path that stays when steps are taken away from its end, and the rest: the
root, or a step to where the path begins. -/
def splitFront : List Char → List Char × List Char
  | '/' :: rest => (['/'], rest)
  | ['.'] => (['.'], [])
  | '.' :: '/' :: rest => (['.'], '/' :: rest)
  | cs => ([], cs)

/-- Takes away the last steps as long as they stay where they are. The characters come last to
first. -/
def dropIdle : List Char → List Char
  | '/' :: rest => dropIdle rest
  | ['.'] => []
  | '.' :: '/' :: rest => dropIdle rest
  | cs => cs

/-- The directory of a path and the name in it, unless the last step goes up or there is none. -/
def split? (path : String) : Option (String × String) :=
  let (front, body) := splitFront path.toList
  let back := dropIdle body.reverse
  let name := (back.takeWhile (· ≠ '/')).reverse
  if name = [] ∨ name = ['.', '.'] then none
  else some (String.ofList (front ++ (dropIdle (back.dropWhile (· ≠ '/'))).reverse), String.ofList name)

def fileName (path : String) : String :=
  match split? path with
  | some (_, name) => name
  | none => ""

def withFileName (path name : String) : String :=
  match split? path with
  | some (directory, _) => join directory name
  | none => join path name

end Path

end TypedContent

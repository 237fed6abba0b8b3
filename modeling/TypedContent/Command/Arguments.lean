/-!
# The command line

Arguments are read one by one, and the first that asks for help or makes no sense ends the
reading. An option is given at most once. Its value stands in the same argument or in the
next one, is not empty, and begins with a dash only in the same argument.
-/

namespace TypedContent

structure Project where
  root : String := "."
  schema : Option String := none
  deriving DecidableEq

inductive Command where
  | generate (project : Project) (cache out : Option String) (watch : Bool)
  | schema (project : Project)
  | types (project : Project)
  deriving DecidableEq

inductive Usage where
  | shown
  | mistaken
  deriving DecidableEq

def Usage.exitCode : Usage → Nat
  | .shown => 0
  | .mistaken => 2

namespace Command

structure OptionSpec where
  name : String
  letter : Option Char := none
  takesValue : Bool := true

/-- The options given so far and their values; the value of a flag is empty. -/
abbrev Given : Type := List (String × String)

/-- A name and what stands after the first equals sign, if there is one. -/
def splitValue : List Char → List Char × Option (List Char)
  | [] => ([], none)
  | '=' :: rest => ([], some rest)
  | c :: rest => let (name, value) := splitValue rest; (c :: name, value)

def store (given : Given) (spec : OptionSpec) (value : String) : Except Usage Given :=
  if given.any (·.1 = spec.name) then .error .mistaken
  else if spec.takesValue ∧ value.isEmpty then .error .mistaken
  else .ok (given ++ [(spec.name, value)])

def isValue (argument : String) : Bool := argument = "-" || argument.toList.head? ≠ some '-'

inductive Said where
  /-- One or more flags, the last of them maybe an option with its value. -/
  | options (given : Given)
  | awaits (given : Given) (spec : OptionSpec)

def readLetters (specs : List OptionSpec) (given : Given) : List Char → Except Usage Said
  | [] => .ok (.options given)
  | c :: rest =>
    if c = 'h' then .error .shown
    else
      match specs.find? (·.letter = some c) with
      | none => .error .mistaken
      | some spec =>
        if spec.takesValue then
          match rest with
          | [] => .ok (.awaits given spec)
          | '=' :: value => .options <$> store given spec (String.ofList value)
          | value => .options <$> store given spec (String.ofList value)
        else do readLetters specs (← store given spec "") rest

def readName (specs : List OptionSpec) (given : Given) (text : List Char) : Except Usage Said :=
  let (name, value) := splitValue text
  let name := String.ofList name
  if name = "help" then .error (if value.isNone then .shown else .mistaken)
  else
    match specs.find? (·.name = name) with
    | none => .error .mistaken
    | some spec =>
      match value, spec.takesValue with
      | none, true => .ok (.awaits given spec)
      | none, false => .options <$> store given spec ""
      | some value, true => .options <$> store given spec (String.ofList value)
      | some _, false => .error .mistaken

/-- Reads the options of a command; no command takes anything else. -/
def readOptions (specs : List OptionSpec) (given : Given) : List String → Except Usage Given
  | [] => .ok given
  | argument :: rest => do
    if argument = "--" then
      if rest.isEmpty then return given else .error .mistaken
    else
      let said ← match argument.toList with
        | '-' :: '-' :: text => readName specs given text
        | '-' :: c :: text => readLetters specs given (c :: text)
        | _ => .error .mistaken
      match said, rest with
      | .options given, rest => readOptions specs given rest
      | .awaits _ _, [] => .error .mistaken
      | .awaits given spec, value :: rest =>
        if isValue value then readOptions specs (← store given spec value) rest else .error .mistaken

def projectOptions : List OptionSpec := [⟨"root", none, true⟩, ⟨"schema", none, true⟩]

def generateOptions : List OptionSpec :=
  projectOptions ++ [⟨"cache", none, true⟩, ⟨"out", some 'o', true⟩, ⟨"watch", none, false⟩]

def value? (given : Given) (name : String) : Option String := (given.find? (·.1 = name)).map (·.2)

def project (given : Given) : Project where
  root := (value? given "root").getD "."
  schema := value? given "schema"

def help : List String → Usage
  | [] => .shown
  | [name] => if name ∈ ["generate", "schema", "types", "help"] then .shown else .mistaken
  | _ => .mistaken

def ofArguments : List String → Except Usage Command
  | [] => .error .mistaken
  | "generate" :: rest => do
    let given ← readOptions generateOptions [] rest
    return .generate (project given) (value? given "cache") (value? given "out") (value? given "watch").isSome
  | "schema" :: rest => return .schema (project (← readOptions projectOptions [] rest))
  | "types" :: rest => return .types (project (← readOptions projectOptions [] rest))
  | "help" :: rest => .error (help rest)
  | argument :: _ =>
    if argument = "--help" ∨ argument = "--version" then .error .shown
    else
      match argument.toList with
      | '-' :: 'h' :: _ => .error .shown
      | '-' :: 'V' :: _ => .error .shown
      | _ => .error .mistaken

end Command

end TypedContent

import TypedContent.Files.Path
import TypedContent.Files.Store

/-!
# A tree of files as a value

A place is the list of names that leads to it from the root, and the tree says for each
place whether a file or a directory is there. A path is followed step by step: every step
starts from a directory, and only the last one may find nothing. Names and whole paths have
a greatest length.
-/

namespace TypedContent

inductive Content where
  | text (text : String)
  | bytes (bytes : List UInt8)
  deriving DecidableEq

inductive Entry where
  | file (content : Content)
  | directory
  deriving DecidableEq

abbrev Place : Type := List String

structure FileTree where
  working : Place
  entries : List (Place × Entry)

namespace FileTree

def at? (t : FileTree) (p : Place) : Option Entry :=
  if p = [] then some .directory else (t.entries.find? (·.1 = p)).map (·.2)

def erase (t : FileTree) (p : Place) : FileTree :=
  { t with entries := t.entries.filter (·.1 ≠ p) }

def put (t : FileTree) (p : Place) (e : Entry) : FileTree :=
  { t with entries := (p, e) :: t.entries.filter (·.1 ≠ p) }

/-- Where a path leads: to something, or to a name that is free in a directory. -/
inductive Target where
  | taken (place : Place) (entry : Entry)
  | free (place : Place)

def follow (t : FileTree) : Place → List String → Except FileError Target
  | p, steps =>
    match t.at? p, steps with
    | none, _ => .error .notFound
    | some entry, [] => .ok (.taken p entry)
    | some (.file _), _ :: _ => .error .notDirectory
    | some .directory, step :: rest =>
      if step = "." then follow t p rest
      else if step = ".." then follow t p.dropLast rest
      else if Path.longestName < step.utf8ByteSize then .error .nameTooLong
      else
        let q := p ++ [step]
        match t.at? q, rest with
        | none, [] => .ok (.free q)
        | none, _ :: _ => .error .notFound
        | some _, rest => follow t q rest
termination_by _ steps => steps.length

def start (t : FileTree) (path : String) : Place := if Path.isAbsolute path then [] else t.working

def target (t : FileTree) (path : String) : Except FileError Target := do
  checkPath path
  if path.isEmpty then .error .notFound else t.follow (t.start path) (Path.steps path)

def readText (t : FileTree) (path : String) : Except FileError String := do
  match ← t.target path with
  | .free _ => .error .notFound
  | .taken _ .directory => .error .isDirectory
  | .taken _ (.file (.bytes _)) => .error .notText
  | .taken _ (.file (.text s)) => .ok s

def writeText (t : FileTree) (path content : String) : Except FileError FileTree := do
  match ← t.target path with
  | .taken _ .directory => .error .isDirectory
  | .taken p (.file _) => .ok (t.put p (.file (.text content)))
  | .free p => .ok (t.put p (.file (.text content)))

def removeFile (t : FileTree) (path : String) : Except FileError FileTree := do
  match ← t.target path with
  | .free _ => .error .notFound
  | .taken _ .directory => .error .isDirectory
  | .taken p (.file _) => .ok (t.erase p)

def rename (t : FileTree) (source path : String) : Except FileError FileTree := do
  match ← t.target source with
  | .free _ => .error .notFound
  | .taken _ .directory => .error .isDirectory
  | .taken p (.file content) =>
    match ← t.target path with
    | .taken _ .directory => .error .isDirectory
    | .taken q (.file _) => .ok ((t.erase p).put q (.file content))
    | .free q => .ok ((t.erase p).put q (.file content))

/-! ## Directories -/

def makeOne (t : FileTree) (origin : Place) (steps : List String) : Except FileError FileTree := do
  match ← t.follow origin steps with
  | .taken _ _ => .error .alreadyExists
  | .free p => .ok (t.put p .directory)

def isDirectory (t : FileTree) (origin : Place) (steps : List String) : Bool :=
  match t.follow origin steps with
  | .ok (.taken _ .directory) => true
  | _ => false

/-- Makes the directory that the steps lead to. If a directory on the way is missing, the
one before the last part is made first; the parts come last to first. A failure counts only
if no directory is there in the end, and what was made on the way stays. -/
def makeAll (t : FileTree) (origin : Place) : List String → List String → FileTree × Except FileError Unit
  | [], _ => (t, .ok ())
  | _ :: back, steps =>
    let finish (t : FileTree) : FileTree × Except FileError Unit :=
      match t.makeOne origin steps with
      | .ok t => (t, .ok ())
      | .error e => if t.isDirectory origin steps then (t, .ok ()) else (t, .error e)
    match t.makeOne origin steps with
    | .error .notFound =>
      match makeAll t origin back back.reverse with
      | (t, .ok ()) => finish t
      | (t, .error e) => (t, .error e)
    | _ => finish t

def makeDirectory (t : FileTree) (path : String) : FileTree × Except FileError Unit :=
  match checkPath path with
  | .error e => (t, .error e)
  | .ok () => t.makeAll (t.start path) (Path.parts path).reverse (Path.steps (Path.dropTrailingSlashes path))

/-! ## As a store -/

/-- Runs an operation that leaves the tree as it was when it fails. -/
def update (f : FileTree → Except FileError FileTree) : StateM FileTree (Except FileError Unit) := fun t =>
  match f t with
  | .ok t => (.ok (), t)
  | .error e => (.error e, t)

instance : FileStore (StateM FileTree) where
  readText path := fun t => (t.readText path, t)
  makeDirectory path := fun t => let (t, result) := t.makeDirectory path; (result, t)
  writeText path content := update (·.writeText path content)
  rename source path := update (·.rename source path)
  removeFile path := update (·.removeFile path)

def filesBelow (t : FileTree) (directory : Place) : List (List String × Content) :=
  t.entries.filterMap fun (p, e) =>
    match e with
    | .directory => none
    | .file content =>
      if directory.isPrefixOf p ∧ directory ≠ p then some (p.drop directory.length, content) else none

end FileTree

end TypedContent

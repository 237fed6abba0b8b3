import TypedContent.Files.Path
import TypedContent.Files.Store
import TypedContent.Package.Artifacts

/-!
# Writing a package

An artifact is written to a temporary file beside its place and then moved there, so a
reader never sees half of it. One artifact that fails does not keep the others from being
written; the first failure is reported when all have been tried.
-/

namespace TypedContent

structure WriteError where
  path : String
  error : FileError
  deriving DecidableEq

namespace Package

/-- The path of the temporary file: a sibling of the artifact, named for it. -/
def temporaryPath (directory fileName : String) : String :=
  let path := Path.join directory fileName
  Path.withFileName path (Path.fileName path ++ ".tmp")

variable {m : Type → Type} [Monad m] [FileStore m]

/-- Writes one artifact and tells its path. A temporary file that could not be moved is
removed, if that is possible. -/
def writeArtifact (directory : String) (a : Artifact) : m (Except WriteError String) := do
  let path := Path.join directory a.fileName
  let temporary := temporaryPath directory a.fileName
  let result ← do
    match ← FileStore.writeText temporary a.content with
    | .ok () => FileStore.rename temporary path
    | .error e => pure (.error e)
  match result with
  | .ok () => return .ok path
  | .error e =>
    let _ ← FileStore.removeFile temporary
    return .error ⟨path, e⟩

def writeEach (directory : String) : List Artifact → m (List (Except WriteError String))
  | [] => return []
  | a :: rest => do
    let result ← writeArtifact directory a
    return result :: (← writeEach directory rest)

def firstError : List (Except WriteError String) → Except WriteError (List String)
  | [] => .ok []
  | .error e :: _ => .error e
  | .ok path :: rest => (path :: ·) <$> firstError rest

def writeArtifacts (directory : String) (artifacts : List Artifact) :
    m (Except WriteError (List String)) :=
  return firstError (← writeEach directory artifacts)

end Package

end TypedContent

import TypedContent.Canonical.Normalize
import TypedContent.Package.Write
import TypedContent.Schema.Read

/-!
# A generation run

A run fetches the cache and the schema from a content source, makes the target directory,
normalizes the schema, builds the package and writes it. The first failure ends the run;
nothing is written before the package has been built.
-/

namespace TypedContent

structure FetchOptions where
  watch : Bool
  force : Bool
  deriving DecidableEq

inductive SourceError where
  | read (path : String) (error : FileError)
  | parse (path : String) (error : ReadError)
  deriving DecidableEq

inductive GenerateError where
  | source (error : SourceError)
  | schema (error : SchemaError)
  | directory (path : String) (error : FileError)
  | write (error : WriteError)
  deriving DecidableEq

def SourceError.message : SourceError → String
  | .read path e => "failed to read " ++ path ++ ": " ++ e.message
  | .parse path e => "failed to parse " ++ path ++ ": " ++ e.message

def GenerateError.message : GenerateError → String
  | .source e => e.message
  | .schema e => e.message
  | .directory path e => "failed to create output directory " ++ path ++ ": " ++ e.message
  | .write e => "failed to write " ++ e.path ++ ": " ++ e.error.message

structure ContentSource (m : Type → Type) where
  fetch : FetchOptions → m (Except SourceError Cache)
  schema : m (Except SourceError Schema)

structure Summary where
  documents : Nat
  documentTypes : Nat
  objectTypes : Nat
  written : List String
  deriving DecidableEq

section

variable {m : Type → Type} [Monad m] [FileStore m]

/-- The source that reads two JSON files. It cannot watch them and reads them once. -/
def ContentSource.files (schemaPath cachePath : String) : ContentSource m where
  fetch _ := do
    match ← FileStore.readText cachePath with
    | .error e => return .error (.read cachePath e)
    | .ok text =>
      match Cache.ofText text with
      | .error e => return .error (.parse cachePath e)
      | .ok cache => return .ok cache
  schema := do
    match ← FileStore.readText schemaPath with
    | .error e => return .error (.read schemaPath e)
    | .ok text =>
      match Schema.ofText text with
      | .error e => return .error (.parse schemaPath e)
      | .ok schema => return .ok schema

def orFail {α ε : Type} (wrap : ε → GenerateError) (step : m (Except ε α)) : ExceptT GenerateError m α :=
  ExceptT.mk do
    match ← step with
    | .ok a => return .ok a
    | .error e => return .error (wrap e)

/-- The cache, the schema and the directory do not depend on each other, so a run may prepare them in
any order or at the same time. Here they come one after the other. -/
def Package.generate (source : ContentSource m) (target : String) (watch : Bool) (options : PackageOptions) :
    ExceptT GenerateError m Summary := do
  let cache ← orFail .source (source.fetch { watch, force := true })
  let schema ← orFail .source source.schema
  orFail (.directory target) (FileStore.makeDirectory target)
  let canonical ← orFail .schema (pure schema.normalize)
  let written ← orFail .write (Package.writeArtifacts target (Package.build canonical cache options))
  return {
    documents := cache.documents.length
    documentTypes := canonical.documents.size
    objectTypes := canonical.objects.size
    written }

end

end TypedContent

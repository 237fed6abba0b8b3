import TypedContent.Canonical.Serial
import TypedContent.Command.Arguments
import TypedContent.Config
import TypedContent.Package.Generate

/-!
# Running a command

A command works on the files of a project and ends with an exit code and what it prints.
-/

namespace TypedContent

inductive Outcome where
  | usage (usage : Usage)
  | ran (exitCode : Nat) (output errors : String)
  deriving DecidableEq

namespace Command

variable {m : Type → Type} [Monad m] [FileStore m]

def schemaPath (p : Project) (config : Config) : String := p.schema.getD (config.schemaPath p.root)

def runGenerate (env : Environment) (p : Project) (cache out : Option String) (watch : Bool) : m Outcome := do
  let config ← Config.load env p.root
  let source := ContentSource.files (schemaPath p config) (cache.getD (config.cachePath p.root))
  let target := out.getD (config.outputDirectory p.root)
  match ← (Package.generate source target watch config.packageOptions).run with
  | .ok summary =>
    return .ran 0 "" ("Generated " ++ toString summary.documents ++ " documents ("
      ++ toString summary.documentTypes ++ " document types, "
      ++ toString summary.objectTypes ++ " object types) into " ++ target ++ "\n")
  | .error e => return .ran 1 "" ("Generation failed: " ++ e.message ++ "\n")

/-- Reads and normalizes the schema, and prints what is made of it. -/
def runInspect (env : Environment) (p : Project) (display : Canonical.Schema → PackageOptions → String) :
    m Outcome := do
  let config ← Config.load env p.root
  match ← (ContentSource.files (schemaPath p config) (config.cachePath p.root)).schema with
  | .error e => return .ran 1 "" (e.message ++ "\n")
  | .ok written =>
    match written.normalize with
    | .error e => return .ran 1 "" (e.message ++ "\n")
    | .ok canonical => return .ran 0 (display canonical config.packageOptions) ""

def run (env : Environment) : Command → m Outcome
  | .generate p cache out watch => runGenerate env p cache out watch
  | .schema p => runInspect env p fun s _ => s.toJson.pretty ++ "\n"
  | .types p => runInspect env p Package.declarations

def runArguments (env : Environment) (arguments : List String) : m Outcome :=
  match ofArguments arguments with
  | .error usage => return .usage usage
  | .ok command => run env command

end Command

end TypedContent

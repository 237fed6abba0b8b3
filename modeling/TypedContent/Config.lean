import TypedContent.Files.Path
import TypedContent.Files.Store
import TypedContent.Package.Artifacts
import TypedContent.Toml.Document

/-!
# Settings

Settings come from a file of the user and from a file of the project, which wins setting by
setting. A file that cannot be read or is not valid counts as a whole as absent. Paths among
the settings are meant from the project's root.
-/

namespace TypedContent

structure SourceSettings where
  schema : Option String := none
  cache : Option String := none
  deriving DecidableEq

structure OutputSettings where
  directory : Option String := none
  packageName : Option String := none
  packageVersion : Option String := none
  runtimeModule : Option String := none
  deriving DecidableEq

structure Config where
  source : SourceSettings := {}
  output : OutputSettings := {}
  deriving DecidableEq

structure Environment where
  home : Option String := none
  configHome : Option String := none

namespace Config

/-! ## From TOML -/

def readSetting : Toml → Option String
  | .string s => some s
  | _ => none

/-- A setting of a section that is written as a table; it may be missing. -/
def member (key : String) (members : Toml.Members) : Option (Option String) :=
  match Toml.lookup key members with
  | none => some none
  | some value => (readSetting value).map some

def item (index : Nat) (items : List Toml) : Option (Option String) :=
  match items[index]? with
  | none => some none
  | some value => (readSetting value).map some

/-- A section is a table of its settings, or an array of them in their order. Each setting
is looked up in either form by the given function. A date or a time is taken for a section
that sets nothing. -/
def section? (value : Toml) : Option (String → Nat → Option (Option String)) :=
  match value with
  | .table _ members => some fun key _ => member key members
  | .array items => some fun _ index => item index items
  | .tables items => some fun _ index => item index (items.map (.table .header))
  | .moment => some fun _ _ => some none
  | _ => none

def readSource (value : Toml) : Option SourceSettings := do
  let setting ← section? value
  return { schema := ← setting "schema" 0, cache := ← setting "cache" 1 }

def readOutput (value : Toml) : Option OutputSettings := do
  let setting ← section? value
  return {
    directory := ← setting "dir" 0
    packageName := ← setting "package_name" 1
    packageVersion := ← setting "package_version" 2
    runtimeModule := ← setting "runtime_module" 3 }

def optionalSection {α : Type} (read : Toml → Option α) (absent : α) (key : String) (members : Toml.Members) :
    Option α :=
  match Toml.lookup key members with
  | none => some absent
  | some value => read value

def ofText? (text : String) : Option Config := do
  let members ← Toml.ofText text
  return {
    source := ← optionalSection readSource {} "source" members
    output := ← optionalSection readOutput {} "output" members }

/-! ## Layers -/

def override (above below : Config) : Config where
  source := {
    schema := above.source.schema <|> below.source.schema
    cache := above.source.cache <|> below.source.cache }
  output := {
    directory := above.output.directory <|> below.output.directory
    packageName := above.output.packageName <|> below.output.packageName
    packageVersion := above.output.packageVersion <|> below.output.packageVersion
    runtimeModule := above.output.runtimeModule <|> below.output.runtimeModule }

def globalPath (env : Environment) : Option String := do
  let directory ← env.configHome <|> env.home.map (Path.join · ".config")
  return Path.join (Path.join directory "contentgen") "config.toml"

def projectPath (root : String) : String := Path.join (Path.join root ".contentgen") "config.toml"

section

variable {m : Type → Type} [Monad m] [FileStore m]

def loadFile (path : String) : m Config := do
  match ← FileStore.readText path with
  | .ok text => return (ofText? text).getD {}
  | .error _ => return {}

def load (env : Environment) (root : String) : m Config := do
  let global ← match globalPath env with
    | some path => loadFile path
    | none => pure {}
  let project ← loadFile (projectPath root)
  return project.override global

end

/-! ## What the settings amount to -/

def defaultSchema : String := "contentgen.schema.json"

def defaultCache : String := ".contentgen/cache.json"

def defaultDirectory : String := ".contentgen/generated"

def schemaPath (c : Config) (root : String) : String := Path.join root (c.source.schema.getD defaultSchema)

def cachePath (c : Config) (root : String) : String := Path.join root (c.source.cache.getD defaultCache)

def outputDirectory (c : Config) (root : String) : String :=
  Path.join root (c.output.directory.getD defaultDirectory)

def packageOptions (c : Config) : PackageOptions :=
  let defaults : PackageOptions := {}
  { name := c.output.packageName.getD defaults.name
    version := c.output.packageVersion.getD defaults.version
    runtimeModule := c.output.runtimeModule.getD defaults.runtimeModule }

end Config

end TypedContent

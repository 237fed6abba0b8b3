import TypedContent.Config
import TypedContent.Proofs.Files.Tree
import TypedContent.Proofs.Package.Run

/-!
# Where a setting comes from

Each setting has a key of its own in one of two sections of a settings file, or a place in the section
if that is an array. A file sets what stands there, unless something in it is not valid: then it sets
nothing. There is a file of the project and one of the user, and a setting comes from the first of
them that has it, or else there is a default. No setting looks at another one.
-/

namespace TypedContent

namespace Toml

/-- What a section has under a key. A section that is an array goes by places instead. -/
def entry? (key : String) (index : Nat) : Toml → Option Toml
  | .table _ members => lookup key members
  | .array items => items[index]?
  | .tables items => items[index]?.map (.table .header)
  | _ => none

/-- A date or a time is taken for a section that has nothing. -/
def isSection : Toml → Bool
  | .table .. | .array _ | .tables _ | .moment => true
  | _ => false

def text? : Toml → Option String
  | .string text => some text
  | _ => none

def isText (value : Toml) : Bool := value.text?.isSome

end Toml

inductive Setting where
  | schema
  | cache
  | directory
  | packageName
  | packageVersion
  | runtimeModule

namespace Setting

def get? : Setting → Config → Option String
  | .schema, c => c.source.schema
  | .cache, c => c.source.cache
  | .directory, c => c.output.directory
  | .packageName, c => c.output.packageName
  | .packageVersion, c => c.output.packageVersion
  | .runtimeModule, c => c.output.runtimeModule

def default : Setting → String
  | .schema => "contentgen.schema.json"
  | .cache => ".contentgen/cache.json"
  | .directory => ".contentgen/generated"
  | .packageName => "dot-contentgen"
  | .packageVersion => "0.0.0"
  | .runtimeModule => "contentgen"

theorem get?_empty (setting : Setting) : setting.get? {} = none := by cases setting <;> rfl

/-- A setting is overridden by itself alone. -/
theorem get?_override (setting : Setting) (above below : Config) :
    setting.get? (above.override below) = (setting.get? above <|> setting.get? below) := by
  cases setting <;> rfl

/-! ## In a file -/

def header : Setting → String
  | .schema | .cache => "source"
  | .directory | .packageName | .packageVersion | .runtimeModule => "output"

def key : Setting → String
  | .schema => "schema"
  | .cache => "cache"
  | .directory => "dir"
  | .packageName => "package_name"
  | .packageVersion => "package_version"
  | .runtimeModule => "runtime_module"

/-- The place in a section that is an array. -/
def index : Setting → Nat
  | .schema | .directory => 0
  | .cache | .packageName => 1
  | .packageVersion => 2
  | .runtimeModule => 3

def all : List Setting := [.schema, .cache, .directory, .packageName, .packageVersion, .runtimeModule]

def entry? (setting : Setting) (members : Toml.Members) : Option Toml :=
  (Toml.lookup setting.header members).bind (Toml.entry? setting.key setting.index)

/-- Sections are sections, and the settings in them are texts. -/
def valid (members : Toml.Members) : Bool :=
  all.all fun setting =>
    (Toml.lookup setting.header members).all Toml.isSection && (setting.entry? members).all Toml.isText

/-- What a file sets. If one thing in it is not valid, then nothing is. -/
def ofText? (text : String) : Option (Setting → Option String) := do
  let members ← Toml.ofText text
  if valid members then some fun setting => (setting.entry? members).bind Toml.text? else none

end Setting

namespace Config

theorem section?_eq (value : Toml) : section? value =
    if value.isSection then
      some fun key index =>
        if (value.entry? key index).all Toml.isText then some ((value.entry? key index).bind Toml.text?) else none
    else none := by
  have hread : ∀ v : Toml, (readSetting v).map some = if v.isText then some v.text? else none := by
    intro v
    cases v <;> rfl
  cases value with
  | table origin members =>
    simp only [section?, Toml.isSection, if_true, Option.some.injEq]
    funext key index
    rw [member, Toml.entry?]
    cases Toml.lookup key members with
    | none => rfl
    | some v => exact hread v
  | array items =>
    simp only [section?, Toml.isSection, if_true, Option.some.injEq]
    funext key index
    rw [item, Toml.entry?]
    cases items[index]? with
    | none => rfl
    | some v => exact hread v
  | tables items =>
    simp only [section?, Toml.isSection, if_true, Option.some.injEq]
    funext key index
    rw [item, Toml.entry?, List.getElem?_map]
    cases items[index]? with
    | none => rfl
    | some v => exact hread _
  | moment => rfl
  | _ => rfl

/-- The section is one, if it is there, and it has texts for the settings. -/
def sectionValid (members : Toml.Members) (header : String) (settings : List Setting) : Bool :=
  (Toml.lookup header members).all Toml.isSection && settings.all fun setting => (setting.entry? members).all Toml.isText

theorem valid_eq (members : Toml.Members) : Setting.valid members =
    (sectionValid members "source" [.schema, .cache] &&
      sectionValid members "output" [.directory, .packageName, .packageVersion, .runtimeModule]) := by
  rw [Bool.eq_iff_iff]
  simp only [Setting.valid, Setting.all, sectionValid, Setting.header, List.all_cons, List.all_nil, Bool.and_eq_true]
  grind

theorem optionalSource_eq (members : Toml.Members) : optionalSection readSource {} "source" members =
    bif sectionValid members "source" [.schema, .cache] then
      some ⟨(Setting.schema.entry? members).bind Toml.text?, (Setting.cache.entry? members).bind Toml.text?⟩
    else none := by
  unfold sectionValid Setting.entry?
  simp only [Setting.header, Setting.key, Setting.index, List.all_cons, List.all_nil, optionalSection]
  cases Toml.lookup "source" members with
  | none => rfl
  | some value =>
    simp only [readSource, section?_eq, Option.bind_some, Option.all_some]
    cases value.isSection with
    | false => rfl
    | true =>
      simp only [if_true, Option.bind_eq_bind, Option.bind_some]
      cases (value.entry? "schema" 0).all Toml.isText <;> cases (value.entry? "cache" 1).all Toml.isText <;> rfl

theorem optionalOutput_eq (members : Toml.Members) : optionalSection readOutput {} "output" members =
    bif sectionValid members "output" [.directory, .packageName, .packageVersion, .runtimeModule] then
      some ⟨(Setting.directory.entry? members).bind Toml.text?, (Setting.packageName.entry? members).bind Toml.text?,
        (Setting.packageVersion.entry? members).bind Toml.text?, (Setting.runtimeModule.entry? members).bind Toml.text?⟩
    else none := by
  unfold sectionValid Setting.entry?
  simp only [Setting.header, Setting.key, Setting.index, List.all_cons, List.all_nil, optionalSection]
  cases Toml.lookup "output" members with
  | none => rfl
  | some value =>
    simp only [readOutput, section?_eq, Option.bind_some, Option.all_some]
    cases value.isSection with
    | false => rfl
    | true =>
      simp only [if_true, Option.bind_eq_bind, Option.bind_some]
      cases (value.entry? "dir" 0).all Toml.isText <;> cases (value.entry? "package_name" 1).all Toml.isText <;>
        cases (value.entry? "package_version" 2).all Toml.isText <;>
        cases (value.entry? "runtime_module" 3).all Toml.isText <;> rfl

/-- The program takes from a file what the file sets, each setting from its own key. -/
theorem ofText?_settings (text : String) :
    (ofText? text).map (fun c setting => Setting.get? setting c) = Setting.ofText? text := by
  unfold ofText? Setting.ofText?
  cases Toml.ofText text with
  | none => rfl
  | some members =>
    simp only [Option.bind_eq_bind, Option.bind_some, optionalSource_eq, optionalOutput_eq, valid_eq]
    cases sectionValid members "source" [.schema, .cache] with
    | false => rfl
    | true =>
      cases sectionValid members "output" [.directory, .packageName, .packageVersion, .runtimeModule] with
      | false => rfl
      | true =>
        refine congrArg some (funext fun setting => ?_)
        cases setting <;> rfl

end Config

/-! ## Where the files are -/

namespace Path

/-- What comes before a relative path depends on the directory alone. -/
theorem join_relative (directory : String) :
    ∃ front : String, ∀ path, isAbsolute path = false → join directory path = front ++ path := by
  by_cases hempty : directory = ""
  · exact ⟨"", fun path _ => by rw [join, if_pos (Or.inr (by simp [hempty])), String.empty_append]⟩
  by_cases hslash : directory.toList.getLast? = some '/'
  · exact ⟨directory, fun path hpath => by rw [join, if_neg (by simp [hpath, hempty]), if_pos hslash]⟩
  · exact ⟨directory ++ "/", fun path hpath => by rw [join, if_neg (by simp [hpath, hempty]), if_neg hslash]⟩

theorem join_join {directory middle last : String} (hmiddle : isAbsolute middle = false) (hne : middle ≠ "")
    (hslash : middle.toList.getLast? ≠ some '/') (hlast : isAbsolute last = false) :
    join (join directory middle) last = join directory (middle ++ "/" ++ last) := by
  have hne' : middle.toList ≠ [] := fun e => hne (String.toList_inj.mp e)
  have hwhole : isAbsolute (middle ++ "/" ++ last) = false := by
    obtain ⟨c, cs, e⟩ := List.exists_cons_of_ne_nil hne'
    rw [isAbsolute, e] at hmiddle
    simpa [isAbsolute, e] using hmiddle
  have hjoin : ∀ front : String, join (front ++ middle) last = front ++ (middle ++ "/" ++ last) := by
    intro front
    have hempty : (front ++ middle).isEmpty = false := by simp [hne]
    have hend : (front ++ middle).toList.getLast? ≠ some '/' := by
      obtain ⟨cs, c, e⟩ := (List.eq_nil_or_concat middle.toList).resolve_left hne'
      simp only [e, String.toList_append] at hslash ⊢
      simpa using hslash
    rw [join, if_neg (by simp [hlast, hempty]), if_neg hend, String.append_assoc, String.append_assoc,
      String.append_assoc]
  obtain ⟨front, hfront⟩ := join_relative directory
  rw [hfront middle hmiddle, hfront _ hwhole, hjoin front]

end Path

def projectFile (root : String) : String := Path.join root ".contentgen/config.toml"

def userFile (env : Environment) : Option String :=
  match env.configHome, env.home with
  | some directory, _ => some (Path.join directory "contentgen/config.toml")
  | none, some home => some (Path.join home ".config/contentgen/config.toml")
  | none, none => none

theorem Config.projectPath_eq (root : String) : projectPath root = projectFile root :=
  Path.join_join (by decide) (by decide) (by decide) (by decide)

theorem Config.globalPath_eq (env : Environment) : globalPath env = userFile env := by
  have hfile : ∀ directory, Path.join (Path.join directory "contentgen") "config.toml" =
      Path.join directory "contentgen/config.toml" := fun directory =>
    Path.join_join (by decide) (by decide) (by decide) (by decide)
  have hhome : ∀ home, Path.join (Path.join home ".config") "contentgen/config.toml" =
      Path.join home ".config/contentgen/config.toml" := fun home =>
    Path.join_join (by decide) (by decide) (by decide) (by decide)
  unfold globalPath userFile
  cases env.configHome with
  | some directory => exact congrArg some (hfile directory)
  | none =>
    cases env.home with
    | some home => exact congrArg some ((hfile _).trans (hhome home))
    | none => rfl

/-! ## Layers -/

/-- What a file sets, if it can be read. -/
def FileTree.settings? (t : FileTree) (path : String) : Option (Setting → Option String) :=
  match t.readText path with
  | .ok text => Setting.ofText? text
  | .error _ => none

/-- The files that settings are looked for in. -/
structure Layers where
  root : String
  project : Option (Setting → Option String)
  user : Option (Setting → Option String)

def FileTree.layers (t : FileTree) (env : Environment) (root : String) : Layers where
  root := root
  project := t.settings? (projectFile root)
  user := (userFile env).bind t.settings?

def firstGiven (values : List (Option String)) (default : String) : String :=
  (values.findSome? id).getD default

namespace Layers

variable (l : Layers)

def text (setting : Setting) : String :=
  firstGiven [l.project.bind (· setting), l.user.bind (· setting)] setting.default

/-- A path on the command line is taken as it is, any other from the root. -/
def path (flag : Option String) (setting : Setting) : String :=
  firstGiven [flag, (l.project.bind (· setting)).map (Path.join l.root), (l.user.bind (· setting)).map (Path.join l.root)]
    (Path.join l.root setting.default)

def packageOptions : PackageOptions where
  name := l.text .packageName
  version := l.text .packageVersion
  runtimeModule := l.text .runtimeModule

/-! ## What is loaded -/

/-- The program's settings are those of the layers, the project's before the user's. -/
def Loads (c : Config) : Prop :=
  ∀ setting : Setting, setting.get? c = (l.project.bind (· setting) <|> l.user.bind (· setting))

section
variable {l} {c : Config} (h : l.Loads c)
include h

theorem Loads.text_eq (setting : Setting) : (setting.get? c).getD setting.default = l.text setting := by
  rw [h, text, firstGiven]
  cases l.project.bind (· setting) <;> cases l.user.bind (· setting) <;> rfl

theorem Loads.path_eq (flag : Option String) (setting : Setting) :
    flag.getD (Path.join l.root ((setting.get? c).getD setting.default)) = l.path flag setting := by
  rw [h, path, firstGiven]
  cases flag <;> cases l.project.bind (· setting) <;> cases l.user.bind (· setting) <;> rfl

theorem Loads.packageOptions_eq : c.packageOptions = l.packageOptions := by
  rw [packageOptions, ← h.text_eq, ← h.text_eq, ← h.text_eq]
  rfl

end

end Layers

theorem run_loadFile (t : FileTree) (path : String) : ∃ c, (Config.loadFile path : StateM FileTree Config).run t = (c, t) ∧
    ∀ setting : Setting, setting.get? c = (t.settings? path).bind (· setting) := by
  rw [Config.loadFile, run_bind_of_eq (FileTree.run_readText t path), FileTree.settings?]
  cases t.readText path with
  | error e => exact ⟨{}, rfl, Setting.get?_empty⟩
  | ok text =>
    refine ⟨(Config.ofText? text).getD {}, rfl, fun setting => ?_⟩
    simp only
    rw [← Config.ofText?_settings]
    cases Config.ofText? text with
    | none => exact setting.get?_empty
    | some c => rfl

theorem run_load (t : FileTree) (env : Environment) (root : String) :
    ∃ c, (Config.load env root : StateM FileTree Config).run t = (c, t) ∧ (t.layers env root).Loads c := by
  obtain ⟨project, hproject, hgiven⟩ := run_loadFile t (projectFile root)
  have hrest : ∀ user : Config, (do
      let project ← Config.loadFile (projectFile root)
      return project.override user : StateM FileTree Config).run t = (project.override user, t) := fun user =>
    run_bind_of_eq hproject
  unfold Config.load Layers.Loads FileTree.layers
  rw [Config.globalPath_eq, Config.projectPath_eq]
  cases userFile env with
  | none =>
    refine ⟨project.override {}, hrest {}, fun setting => ?_⟩
    rw [setting.get?_override, hgiven, setting.get?_empty]
    rfl
  | some path =>
    obtain ⟨user, huser, hgiven'⟩ := run_loadFile t path
    refine ⟨project.override user, (run_bind_of_eq huser).trans (hrest user), fun setting => ?_⟩
    rw [setting.get?_override, hgiven, hgiven']
    rfl

end TypedContent

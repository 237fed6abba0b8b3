import TypedContent.Command.Run
import TypedContent.Proofs.Command.Layers
import TypedContent.Proofs.Package.Concurrent
import TypedContent.Proofs.Package.DataModule
import TypedContent.Proofs.Schema.Unambiguous

/-!
# The settings in force

All commands take their settings from the same layers. So on the same files the declarations that one
of them prints are those that the other one writes, if it finds the schema: the one that generates may
have made a directory first that is on the way there.
-/

namespace TypedContent

namespace Command

section
variable {p : Project} {l : Layers} {c : Config} (hroot : l.root = p.root) (hl : l.Loads c)
include hroot hl

theorem schemaPath_eq : schemaPath p c = l.path p.schema .schema := by
  rw [← hl.path_eq, hroot]
  rfl

theorem cachePath_eq (cache : Option String) : cache.getD (c.cachePath p.root) = l.path cache .cache := by
  rw [← hl.path_eq, hroot]
  rfl

theorem directory_eq (out : Option String) : out.getD (c.outputDirectory p.root) = l.path out .directory := by
  rw [← hl.path_eq, hroot]
  rfl

end

/-! ## Commands -/

/-- What is told of a run that generates a package. -/
def generated (target : String) : Except GenerateError Summary → Outcome
  | .ok summary =>
    .ran 0 "" ("Generated " ++ toString summary.documents ++ " documents ("
      ++ toString summary.documentTypes ++ " document types, "
      ++ toString summary.objectTypes ++ " object types) into " ++ target ++ "\n")
  | .error e => .ran 1 "" ("Generation failed: " ++ e.message ++ "\n")

def printed : Except String String → Outcome
  | .ok text => .ran 0 text ""
  | .error message => .ran 1 "" (message ++ "\n")

/-- The canonical form of the schema in a file, or what is told of its failure. -/
def canonicalAt (t : FileTree) (path : String) : Except String Canonical.Schema :=
  match t.parsed Schema.ofText path with
  | .error e => .error e.message
  | .ok s =>
    match s.normalize with
    | .error e => .error e.message
    | .ok c => .ok c

section
variable (env : Environment) (p : Project) (t : FileTree)

theorem run_generate (cache out : Option String) (watch : Bool) :
    (run env (.generate p cache out watch) : StateM FileTree Outcome).run t =
      let l := t.layers env p.root
      let source : ContentSource (StateM FileTree) := .files (l.path p.schema .schema) (l.path cache .cache)
      let (result, after) := (Package.generate source (l.path out .directory) watch l.packageOptions).run.run t
      (generated (l.path out .directory) result, after) := by
  have hroot : (t.layers env p.root).root = p.root := rfl
  obtain ⟨c, hload, hl⟩ := run_load t env p.root
  rw [run, runGenerate, run_bind_of_eq hload]
  simp only [schemaPath_eq hroot hl, cachePath_eq hroot hl, directory_eq hroot hl, hl.packageOptions_eq]
  generalize (Package.generate _ _ _ _ : ExceptT GenerateError (StateM FileTree) Summary) = generate
  rcases hrun : generate.run.run t with ⟨result, after⟩
  rw [run_bind_of_eq hrun]
  cases result <;> rfl

theorem run_inspect (display : Canonical.Schema → PackageOptions → String) :
    (runInspect env p display : StateM FileTree Outcome).run t =
      let l := t.layers env p.root
      (printed ((canonicalAt t (l.path p.schema .schema)).map (display · l.packageOptions)), t) := by
  have hroot : (t.layers env p.root).root = p.root := rfl
  obtain ⟨c, hload, hl⟩ := run_load t env p.root
  rw [runInspect, run_bind_of_eq hload]
  simp only [schemaPath_eq hroot hl, hl.packageOptions_eq]
  rw [run_bind_of_eq (ContentSource.run_schema _ _ t), canonicalAt]
  cases t.parsed Schema.ofText ((t.layers env p.root).path p.schema .schema) with
  | error e => rfl
  | ok s =>
    cases hnormal : s.normalize with
    | error e =>
      simp only [hnormal]
      rfl
    | ok c =>
      simp only [hnormal]
      rfl

end

/-- The command that generates has a run that ends well, whatever it does first. -/
def Generates (env : Environment) (p : Project) (cache out : Option String) (watch : Bool) (t : FileTree)
    (summary : Summary) (after : FileTree) : Prop :=
  let l := t.layers env p.root
  Package.Generates (.files (l.path p.schema .schema) (l.path cache .cache)) (l.path out .directory) watch
    l.packageOptions t summary after

/-! ## The declarations -/

theorem canonicalAt_eq_ok {t : FileTree} {path : String} {c : Canonical.Schema} : canonicalAt t path = .ok c ↔
    ∃ text s, t.readText path = .ok text ∧ Schema.ofText text = .ok s ∧ s.normalize = .ok c := by
  unfold canonicalAt
  constructor
  · intro h
    cases hparsed : t.parsed Schema.ofText path with
    | error e =>
      rw [hparsed] at h
      cases h
    | ok s =>
      rw [hparsed] at h
      obtain ⟨text, hread, htext⟩ := FileTree.parsed_eq_ok.mp hparsed
      cases hc : s.normalize with
      | error e =>
        simp only [hc] at h
        cases h
      | ok c' =>
        simp only [hc] at h
        cases h
        exact ⟨text, s, hread, htext, hc⟩
  · intro h
    obtain ⟨text, s, hread, htext, hc⟩ := h
    rw [FileTree.parsed_eq_ok.mpr ⟨text, hread, htext⟩]
    simp only [hc]

theorem missing_message (path : String) : (SourceError.read path .notFound).message ++ "\n" =
    "failed to read " ++ path ++ ": No such file or directory (os error 2)\n" := by
  have htail : ": " ++ (FileError.message .notFound ++ "\n") = ": No such file or directory (os error 2)\n" := by
    decide +kernel
  calc (SourceError.read path .notFound).message ++ "\n"
      = "failed to read " ++ path ++ ": " ++ (FileError.message .notFound ++ "\n") := String.append_assoc ..
    _ = "failed to read " ++ path ++ (": " ++ (FileError.message .notFound ++ "\n")) := String.append_assoc ..
    _ = "failed to read " ++ path ++ ": No such file or directory (os error 2)\n" :=
      congrArg ("failed to read " ++ path ++ ·) htail

/-- The schema that is read in the course of a run is that of the files before, or its file is not
found there. -/
theorem canonicalAt_before {target path : String} {t t' : FileTree} {c : Canonical.Schema} (h : t.Prepares target t')
    (hc : canonicalAt t' path = .ok c) : canonicalAt t path = .ok c ∨
      canonicalAt t path = .error (SourceError.read path .notFound).message ∧
        (∀ place, t.reach target ≠ .ok (.taken place .directory)) ∧ (t.Sound → ".." ∈ Path.steps path) := by
  obtain ⟨text, s, hread, htext, hnormal⟩ := canonicalAt_eq_ok.mp hc
  rcases h.made.readText_or hread with hfound | ⟨hmissing, hdots⟩
  · exact .inl (canonicalAt_eq_ok.mpr ⟨text, s, hfound, htext, hnormal⟩)
  · refine .inr ⟨?_, fun place hplace => ?_, hdots⟩
    · rw [canonicalAt, FileTree.parsed, hmissing]
    · rw [h.there place hplace, hmissing] at hread
      cases hread

section
variable {target : String} {options : PackageOptions} {t after : FileTree}

theorem declarations_written {text : String} {s : Schema} {c : Canonical.Schema} {cache : Cache}
    {results : List (Except WriteError String)} {written : List String} (htext : Schema.ofText text = .ok s)
    (hc : s.normalize = .ok c)
    (hw : Package.Writing.Runs target (Package.build c cache options) (.start t (Package.build c cache options))
      ⟨after, results.map .done⟩)
    (hok : Package.firstError results = .ok written) :
    after.readText (Path.join target Package.declarationFile) = .ok (Package.declarations c options) := by
  obtain ⟨found, hn⟩ := Schema.normalized_of_ok hc
  have hseparate : Package.Separate (Package.build c cache options) :=
    Package.build_separate hn.documents_nodup (TypeScript.names_identifier hn (Schema.ofText_valid htext) .document)
  have hbuilt : ⟨Package.declarationFile, Package.declarations c options⟩ ∈ Package.build c cache options := by
    simp [Package.build]
  have hread := Package.read_of_written hseparate hw hok hbuilt
  exact hread

/-- A run has written the declarations of the schema that it has read. -/
theorem declarations_of_generates {schema cache : String} {watch : Bool} {summary : Summary}
    (h : Package.Generates (.files schema cache) target watch options t summary after) :
    ∃ c t', t.Prepares target t' ∧ canonicalAt t' schema = .ok c ∧
      after.readText (Path.join target Package.declarationFile) = .ok (Package.declarations c options) := by
  obtain @⟨prepared, content, s, c, results, written, _, hruns, -, hs, -, hc, hw, hok⟩ := h
  obtain ⟨t', ht', hread⟩ := hruns.schema_read (ContentSource.files_quiet schema cache) hs
  rw [ContentSource.run_schema] at hread
  obtain ⟨text, hfile, htext⟩ := FileTree.parsed_eq_ok.mp hread
  exact ⟨c, t', ht', canonicalAt_eq_ok.mpr ⟨text, s, hfile, htext, hc⟩, declarations_written htext hc hw hok⟩

end

/-- A run that reads the schema before it makes the directory has read it from the files before. -/
theorem declarations_of_generate {env : Environment} {p : Project} {cache out : Option String} {watch : Bool}
    {t after : FileTree} {output report : String}
    (h : (run env (.generate p cache out watch) : StateM FileTree Outcome).run t = (.ran 0 output report, after)) :
    ∃ c, canonicalAt t ((t.layers env p.root).path p.schema .schema) = .ok c ∧
      after.readText (Path.join ((t.layers env p.root).path out .directory) Package.declarationFile) =
        .ok (Package.declarations c (t.layers env p.root).packageOptions) := by
  rw [run_generate] at h
  generalize t.layers env p.root = l at h ⊢
  simp only at h
  generalize l.path p.schema .schema = schema at h ⊢
  rcases hrun : (Package.generate (.files schema (l.path cache .cache) : ContentSource (StateM FileTree))
    (l.path out .directory) watch l.packageOptions).run.run t with ⟨result, after'⟩
  rw [hrun] at h
  cases result with
  | error e => cases h
  | ok summary =>
    cases h
    obtain ⟨content, fetched, s, provided, made, c, hfetch, hs, -, hc, hwritten, -⟩ := generate_eq_ok.mp hrun
    rw [ContentSource.run_fetch] at hfetch
    obtain ⟨-, rfl⟩ := Prod.mk.inj hfetch
    rw [ContentSource.run_schema] at hs
    obtain ⟨text, hfile, htext⟩ := FileTree.parsed_eq_ok.mp (Prod.mk.inj hs).1
    rcases heach : (Package.writeEach (l.path out .directory) (Package.build c content l.packageOptions) :
      StateM FileTree _).run made with ⟨results, written⟩
    rw [Package.writeArtifacts_run heach] at hwritten
    obtain ⟨hok, rfl⟩ := Prod.mk.inj hwritten
    exact ⟨c, canonicalAt_eq_ok.mpr ⟨text, s, hfile, htext, hc⟩,
      declarations_written htext hc (Package.runs_of_writeEach heach) hok⟩

/-- Every command takes its settings from the layers. The commands that print and the one that
generates take the same schema and the same options, so on the same files: if the package is
generated, the types are printed, and they are the text of its declarations. Only a run that makes the
directory before it reads the schema may find it where the types do not, by a step back from what it
has made. -/
theorem settings_in_force (env : Environment) (p : Project) (cache out : Option String) (watch : Bool) (t : FileTree) :
    let l := t.layers env p.root
    let schema := l.path p.schema .schema
    let directory := l.path out .directory
    ((run env (.generate p cache out watch) : StateM FileTree Outcome).run t =
      let source : ContentSource (StateM FileTree) := .files schema (l.path cache .cache)
      let (result, after) := (Package.generate source directory watch l.packageOptions).run.run t
      (generated directory result, after)) ∧
    (run env (.schema p) : StateM FileTree Outcome).run t =
      (printed ((canonicalAt t schema).map fun c => c.toJson.pretty ++ "\n"), t) ∧
    (run env (.types p) : StateM FileTree Outcome).run t =
      (printed ((canonicalAt t schema).map fun c => Package.declarations c l.packageOptions), t) ∧
    (∀ output report after,
      (run env (.generate p cache out watch) : StateM FileTree Outcome).run t = (.ran 0 output report, after) →
        ∃ text, (run env (.types p) : StateM FileTree Outcome).run t = (.ran 0 text "", t) ∧
          after.readText (Path.join directory Package.declarationFile) = .ok text) ∧
    ∀ summary after, Generates env p cache out watch t summary after →
        ∃ text, after.readText (Path.join directory Package.declarationFile) = .ok text ∧
          ((run env (.types p) : StateM FileTree Outcome).run t = (.ran 0 text "", t) ∨
            (run env (.types p) : StateM FileTree Outcome).run t =
                (.ran 1 "" ("failed to read " ++ schema ++ ": No such file or directory (os error 2)\n"), t) ∧
              (∀ place, t.reach directory ≠ .ok (.taken place .directory)) ∧ (t.Sound → ".." ∈ Path.steps schema)) := by
  have htypes := run_inspect env p t Package.declarations
  refine ⟨run_generate env p t cache out watch, run_inspect env p t fun c _ => c.toJson.pretty ++ "\n", htypes,
    fun output report after h => ?_, fun summary after h => ?_⟩
  · obtain ⟨c, hc, hread⟩ := declarations_of_generate h
    refine ⟨_, ?_, hread⟩
    simp only [hc] at htypes
    exact htypes
  · obtain ⟨c, t', ht', hc, hread⟩ := declarations_of_generates h
    refine ⟨_, hread, ?_⟩
    rcases canonicalAt_before ht' hc with hc | ⟨hmissing, hnew⟩
    · simp only [hc] at htypes
      exact .inl htypes
    · simp only [hmissing] at htypes
      exact .inr ⟨missing_message _ ▸ htypes, hnew⟩

/-- One type of documents that are no markdown. -/
def studioWritten : Json := .obj [("documentTypes", .obj [
  ("Post", .obj [("fileType", .str "json"), ("fields", .obj [("title", .obj [("type", .str "string")])])])])]

def studioCanonical : Canonical.Schema where
  documents := ⟨.document, [{ name := "Post", label := "Post", isSingleton := false, computed := [], fields := [
    ⟨{ name := "title", label := "title" }, .string⟩] }]⟩
  objects := ⟨.object, []⟩

/-- The user's file names the schema, and the project's file names a directory in place of the user's. -/
def studio : FileTree where
  working := ["site"]
  entries := [
    (["home"], .directory), (["home", "contentgen"], .directory),
    (["home", "contentgen", "config.toml"],
      .file (.text "[source]\nschema = 'posts.json'\n[output]\ndir = 'built'\nruntime_module = '@studio/runtime'\n")),
    (["site"], .directory), (["site", ".contentgen"], .directory),
    (["site", ".contentgen", "config.toml"], .file (.text "[output]\ndir = 'generated'\n")),
    (["site", "posts.json"], .file (.text studioWritten.pretty)), (["site", "cache.json"], .file (.text noteText))]

def studioEnvironment : Environment where
  configHome := some "/home"

def studioCommand : Command := .generate {} (some "cache.json") none false

def studioMade : FileTree := studio.put ["site", "generated"] .directory

def studioOptions : PackageOptions := (studio.layers studioEnvironment ".").packageOptions

def studioSummary : Summary where
  documents := 2
  documentTypes := 1
  objectTypes := 0
  written := ["./generated/package.json", "./generated/index.js", "./generated/index.d.ts", "./generated/allPost.js"]

theorem studio_schema {t : FileTree} {path : String} (h : t.readText path = .ok studioWritten.pretty) :
    ∃ s, t.parsed Schema.ofText path = .ok s ∧ s.normalize = .ok studioCanonical := by
  have hlossless : studioWritten.Lossless := by
    simp [studioWritten, Json.lossless_obj, Json.Lossless.str]
  have hread : ∃ s, readSchema 127 studioWritten.tree = .ok s ∧ s.normalize = .ok studioCanonical :=
    ⟨_, by rfl, by cbv⟩
  obtain ⟨s, hs, hc⟩ := hread
  have hparsed : Schema.ofText studioWritten.pretty = .ok s := readText_print (readSchema 127) hlossless .pretty hs
  exact ⟨s, FileTree.parsed_eq_ok.mpr ⟨_, h, hparsed⟩, hc⟩

theorem studio_made : (FileStore.makeDirectory "./generated" : StateM FileTree _).run studio = (.ok (), studioMade) := by
  change (_ : Except FileError Unit × FileTree) = _
  decide +kernel

theorem studio_written : ∃ after, (Package.writeArtifacts "./generated" (Package.build studioCanonical noteCache studioOptions) :
    StateM FileTree _).run studioMade = (.ok studioSummary.written, after) := by
  refine ⟨_, Prod.ext ?_ rfl⟩
  decide +kernel

theorem studio_generate : ∃ after, (Package.generate (.files "./posts.json" "cache.json") "./generated" false studioOptions :
    ExceptT GenerateError (StateM FileTree) Summary).run.run studio = (.ok studioSummary, after) := by
  have hfile : studio.readText "cache.json" = .ok noteText := by decide +kernel
  have hfetch := ContentSource.run_fetch "./posts.json" "cache.json" studio ⟨false, true⟩
  rw [FileTree.parsed_eq_ok.mpr ⟨noteText, hfile, note_read⟩] at hfetch
  have hschema : studio.readText "./posts.json" = .ok studioWritten.pretty := by decide +kernel
  obtain ⟨s, hs, hc⟩ := studio_schema hschema
  have hprovided := ContentSource.run_schema "./posts.json" "cache.json" studio
  rw [hs] at hprovided
  obtain ⟨after, hwritten⟩ := studio_written
  exact ⟨after, generate_eq_ok.mpr
    ⟨noteCache, studio, s, studio, studioMade, studioCanonical, hfetch, hprovided, studio_made, hc, hwritten, rfl⟩⟩

/-- The types are those of the user's schema, and stand in the directory of the project. The directory
is new, but no step on the way to the schema goes up. -/
theorem studio_settings_in_force :
    studio.Sound ∧ ".." ∉ Path.steps "./posts.json" ∧ ∃ after text,
      (run studioEnvironment studioCommand : StateM FileTree Outcome).run studio =
        (.ran 0 "" "Generated 2 documents (1 document types, 0 object types) into ./generated\n", after) ∧
      Generates studioEnvironment {} (some "cache.json") none false studio studioSummary after ∧
      (run studioEnvironment (.types {}) : StateM FileTree Outcome).run studio = (.ran 0 text "", studio) ∧
      after.readText "./generated/index.d.ts" = .ok text := by
  have hschema : (studio.layers studioEnvironment ".").path none .schema = "./posts.json" := by decide +kernel
  have hdirectory : (studio.layers studioEnvironment ".").path none .directory = "./generated" := by decide +kernel
  have hsound : studio.Sound := FileTree.sound_of_entries (by decide +kernel)
  have hdots : ".." ∉ Path.steps "./posts.json" := by decide
  obtain ⟨after, hgenerate⟩ := studio_generate
  obtain ⟨hrun, -, -, -, hall⟩ := settings_in_force studioEnvironment {} (some "cache.json") none false studio
  dsimp only at hrun hall
  have hgenerates : Generates studioEnvironment {} (some "cache.json") none false studio studioSummary after := by
    unfold Generates
    dsimp only
    rw [hschema, hdirectory]
    exact Package.generates_of_generate hgenerate
  obtain ⟨text, hread, hprinted⟩ := hall studioSummary after hgenerates
  rw [hschema] at hprinted
  refine ⟨hsound, hdots, after, text, ?_, hgenerates, ?_, ?_⟩
  · rw [hschema, hdirectory] at hrun
    have hcache : (studio.layers studioEnvironment ".").path (some "cache.json") .cache = "cache.json" := rfl
    unfold studioOptions at hgenerate
    rw [studioCommand, hrun, hcache, hgenerate]
    rfl
  · rcases hprinted with hprinted | ⟨-, -, hup⟩
    · exact hprinted
    · exact absurd (hup hsound) hdots
  · rw [hdirectory] at hread
    have hfile : Path.join "./generated" Package.declarationFile = "./generated/index.d.ts" := by decide +kernel
    exact hfile ▸ hread

/-- A run that makes the directory first finds the schema by a step back from it, and the types of the
same files are not printed. -/
theorem types_may_miss_the_schema : ∃ after,
    Generates studioEnvironment { schema := some "generated/../posts.json" } (some "cache.json") none false studio
        studioSummary after ∧
      (run studioEnvironment (.types { schema := some "generated/../posts.json" }) : StateM FileTree Outcome).run studio =
        (.ran 1 "" "failed to read generated/../posts.json: No such file or directory (os error 2)\n", studio) := by
  have hmissing : studio.readText "generated/../posts.json" = .error .notFound := by decide +kernel
  have hfound : studioMade.readText "generated/../posts.json" = .ok studioWritten.pretty := by decide +kernel
  have hfile : studioMade.readText "cache.json" = .ok noteText := by decide +kernel
  have hdirectory : (studio.layers studioEnvironment ".").path none .directory = "./generated" := by decide +kernel
  obtain ⟨after, hwritten⟩ := studio_written
  refine ⟨after, ?_, ?_⟩
  · obtain ⟨s, hs, hc⟩ := studio_schema hfound
    have hfetch := ContentSource.run_fetch "generated/../posts.json" "cache.json" studioMade ⟨false, true⟩
    rw [FileTree.parsed_eq_ok.mpr ⟨noteText, hfile, note_read⟩] at hfetch
    have hprovided := ContentSource.run_schema "generated/../posts.json" "cache.json" studioMade
    rw [hs] at hprovided
    have hruns : Preparation.Runs (.files "generated/../posts.json" "cache.json") "./generated" false (.start studio)
        ⟨studioMade, some (.ok noteCache), some (.ok s), some (.ok ())⟩ :=
      ((Relation.ReflTransGen.single (.directory rfl studio_made)).tail (.fetch rfl hfetch)).tail (.schema rfl hprovided)
    rcases heach : (Package.writeEach "./generated" (Package.build studioCanonical noteCache studioOptions) :
      StateM FileTree _).run studioMade with ⟨results, t⟩
    rw [Package.writeArtifacts_run heach] at hwritten
    obtain ⟨hok, rfl⟩ := Prod.mk.inj hwritten
    unfold Generates
    dsimp only
    rw [hdirectory]
    exact .of hruns rfl rfl rfl hc (Package.runs_of_writeEach heach) hok
  · have hcanonical : canonicalAt studio "generated/../posts.json" =
        .error (SourceError.read "generated/../posts.json" .notFound).message := by
      rw [canonicalAt, FileTree.parsed, hmissing]
    have hrun := run_inspect studioEnvironment { schema := some "generated/../posts.json" } studio Package.declarations
    have hpath : (studio.layers studioEnvironment ".").path (some "generated/../posts.json") .schema =
        "generated/../posts.json" := rfl
    dsimp only at hrun
    rw [hpath, hcanonical] at hrun
    have hmessage : (SourceError.read "generated/../posts.json" .notFound).message ++ "\n" =
        "failed to read generated/../posts.json: No such file or directory (os error 2)\n" := by
      decide +kernel
    rw [run, hrun]
    exact congrArg (fun text => (Outcome.ran 1 "" text, studio)) hmessage

end Command

end TypedContent

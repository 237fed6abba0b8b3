import Mathlib.Logic.Relation
import TypedContent.Proofs.Files.Directory
import TypedContent.Proofs.Package.Run
import TypedContent.Proofs.Schema.Validation

/-!
# Runs that fail before they write

A run prepares three things, in any order or at the same time: the cache, the schema and the target
directory. If one of them fails, the run does, though the others may still go on for a while.
Otherwise the schema is normalized, and only then is anything written. So a run that fails with
another error than one of writing has at most made directories.
-/

namespace TypedContent

/-- No file has come, gone or changed, and what is new are directories on the way of the path. -/
structure FileTree.OnlyDirectories (path : String) (before after : FileTree) : Prop where
  files : ∀ place content, after.at? place = some (.file content) ↔ before.at? place = some (.file content)
  new : ∀ place, after.at? place ≠ before.at? place → before.at? place = none ∧
    after.at? place = some .directory ∧
    ∃ steps, steps <+: Path.steps path ∧ after.Leads (after.start path) steps place

theorem FileTree.Made.onlyDirectories {path : String} {before after : FileTree}
    (h : Made (before.start path) (· <+: Path.steps path) before after) : OnlyDirectories path before after := by
  refine ⟨h.file, fun place hplace => ?_⟩
  rw [start, ← h.working]
  exact (h.at? place).resolve_left hplace

/-- A source that leaves the files as they are. -/
structure ContentSource.Quiet (source : ContentSource (StateM FileTree)) : Prop where
  fetch : ∀ options t, ((source.fetch options).run t).2 = t
  schema : ∀ t, (source.schema.run t).2 = t

theorem ContentSource.memory_quiet (cache : Cache) (s : Schema) : (ContentSource.memory cache s).Quiet :=
  ⟨fun _ _ => rfl, fun _ => rfl⟩

/-- What a file is read as, or why it cannot be. -/
def FileTree.parsed {α : Type} (t : FileTree) (read : String → Except ReadError α) (path : String) :
    Except SourceError α :=
  match t.readText path with
  | .error e => .error (.read path e)
  | .ok text =>
    match read text with
    | .error e => .error (.parse path e)
    | .ok a => .ok a

theorem FileTree.parsed_eq_ok {α : Type} {t : FileTree} {read : String → Except ReadError α} {path : String} {a : α} :
    t.parsed read path = .ok a ↔ ∃ text, t.readText path = .ok text ∧ read text = .ok a := by
  unfold parsed
  cases t.readText path with
  | error e => simp
  | ok text => cases h : read text <;> simp [h]

namespace ContentSource

section
variable (schemaPath cachePath : String) (t : FileTree)

theorem run_fetch (options : FetchOptions) :
    ((files schemaPath cachePath).fetch options : StateM FileTree _).run t = (t.parsed Cache.ofText cachePath, t) := by
  rw [files, FileTree.parsed, run_bind_of_eq (FileTree.run_readText t cachePath)]
  cases t.readText cachePath with
  | error e => rfl
  | ok text =>
    dsimp only
    cases Cache.ofText text <;> rfl

theorem run_schema :
    (files schemaPath cachePath : ContentSource (StateM FileTree)).schema.run t =
      (t.parsed Schema.ofText schemaPath, t) := by
  rw [files, FileTree.parsed, run_bind_of_eq (FileTree.run_readText t schemaPath)]
  cases t.readText schemaPath with
  | error e => rfl
  | ok text =>
    dsimp only
    cases Schema.ofText text <;> rfl

theorem files_quiet : (files schemaPath cachePath).Quiet :=
  ⟨fun options t => congrArg Prod.snd (run_fetch schemaPath cachePath t options),
    fun t => congrArg Prod.snd (run_schema schemaPath cachePath t)⟩

end

end ContentSource

/-- What has been prepared so far. -/
structure Preparation where
  tree : FileTree
  cache : Option (Except SourceError Cache)
  schema : Option (Except SourceError Schema)
  directory : Option (Except FileError Unit)

namespace Preparation

def start (t : FileTree) : Preparation := ⟨t, none, none, none⟩

variable (source : ContentSource (StateM FileTree)) (target : String) (watch : Bool)

inductive Step : Preparation → Preparation → Prop
  | fetch {s : Preparation} {result : Except SourceError Cache} {t : FileTree} : s.cache = none →
    (source.fetch ⟨watch, true⟩).run s.tree = (result, t) → Step s { s with tree := t, cache := some result }
  | schema {s : Preparation} {result : Except SourceError Schema} {t : FileTree} : s.schema = none →
    source.schema.run s.tree = (result, t) → Step s { s with tree := t, schema := some result }
  | directory {s : Preparation} {result : Except FileError Unit} {t : FileTree} : s.directory = none →
    (FileStore.makeDirectory target : StateM FileTree _).run s.tree = (result, t) →
    Step s { s with tree := t, directory := some result }

abbrev Runs : Preparation → Preparation → Prop := Relation.ReflTransGen (Step source target watch)

/-- The errors that a run may end with. -/
inductive Fails (s : Preparation) : GenerateError → Prop
  | cache {e : SourceError} : s.cache = some (.error e) → Fails s (.source e)
  | schema {e : SourceError} : s.schema = some (.error e) → Fails s (.source e)
  | directory {e : FileError} : s.directory = some (.error e) → Fails s (.directory target e)
  | normalize {cache : Cache} {schema : Schema} {e : SchemaError} : s.cache = some (.ok cache) →
    s.schema = some (.ok schema) → s.directory = some (.ok ()) → schema.normalize = .error e → Fails s (.schema e)

section
variable {source : ContentSource (StateM FileTree)} {target : String} {watch : Bool} {before : FileTree}
  {s s' : Preparation}

/-- Preparing makes directories on the way of the target and does nothing else to the files. -/
theorem Step.made (hq : source.Quiet)
    (h : FileTree.Made (before.start target) (· <+: Path.steps target) before s.tree)
    (hstep : Step source target watch s s') :
    FileTree.Made (before.start target) (· <+: Path.steps target) before s'.tree := by
  cases hstep with
  | fetch _ hrun =>
    have ht := hq.fetch ⟨watch, true⟩ s.tree
    rw [hrun] at ht
    subst ht
    exact h
  | schema _ hrun =>
    have ht := hq.schema s.tree
    rw [hrun] at ht
    subst ht
    exact h
  | directory _ hrun =>
    have hmade := FileTree.makeDirectory_made s.tree target
    rw [FileTree.start, ← h.working] at hmade
    refine h.trans ?_
    cases hrun
    exact hmade

theorem Runs.made (hq : source.Quiet) (h : Runs source target watch (start before) s) :
    FileTree.Made (before.start target) (· <+: Path.steps target) before s.tree := by
  induction h with
  | refl => exact .refl before
  | tail _ hstep ih => exact Step.made hq ih hstep

end

end Preparation

section
variable {source : ContentSource (StateM FileTree)} {target : String} {watch : Bool} {options : PackageOptions}
  {before after : FileTree} {e : GenerateError}

/-- A run that does one thing after the other fails in one of the states that preparing may
reach, or in writing. -/
theorem generate_failure (h : (Package.generate source target watch options).run.run before = (.error e, after)) :
    (∃ w, e = .write w) ∨
      ∃ s, Preparation.Runs source target watch (.start before) s ∧ s.Fails target e ∧ s.tree = after := by
  simp only [Package.generate, run_orFail_bind] at h
  -- what the run has done before it fails, `hruns` does as steps of the preparation
  rcases hfetch : (source.fetch ⟨watch, true⟩).run before with ⟨fetched, t₁⟩
  have hruns : Preparation.Runs source target watch (.start before) ⟨t₁, some fetched, none, none⟩ :=
    .single (.fetch rfl hfetch)
  rw [hfetch] at h
  cases fetched with
  | error e =>
    cases h
    exact .inr ⟨_, hruns, .cache rfl, rfl⟩
  | ok cache =>
    simp only at h
    rcases hschema : source.schema.run t₁ with ⟨provided, t₂⟩
    replace hruns := hruns.tail (.schema rfl hschema)
    rw [hschema] at h
    cases provided with
    | error e =>
      cases h
      exact .inr ⟨_, hruns, .schema rfl, rfl⟩
    | ok schema =>
      simp only at h
      rcases hdirectory : (FileStore.makeDirectory target : StateM FileTree _).run t₂ with ⟨made, t₃⟩
      replace hruns := hruns.tail (.directory rfl hdirectory)
      rw [hdirectory] at h
      cases made with
      | error e =>
        cases h
        exact .inr ⟨_, hruns, .directory rfl, rfl⟩
      | ok =>
        simp only [StateT.run_pure] at h
        cases hnormal : schema.normalize with
        | error e =>
          rw [hnormal] at h
          cases h
          exact .inr ⟨_, hruns, .normalize rfl rfl rfl hnormal, rfl⟩
        | ok c =>
          rw [hnormal] at h
          simp only [pure] at h
          rcases hwritten : (Package.writeArtifacts target (Package.build c cache options) : StateM FileTree _).run t₃ with
            ⟨e' | written, t₄⟩
          · rw [hwritten] at h
            cases h
            exact .inl ⟨e', rfl⟩
          · rw [hwritten] at h
            cases h

end

/-- A source that writes nothing: whatever is prepared first, and whatever is still under way when
a part of it has failed, preparing leaves the files as they are and makes at most directories on the
way of the target. A run that fails with another error than one of writing ends there. -/
theorem failure_writes_nothing (source : ContentSource (StateM FileTree)) (target : String) (watch : Bool)
    (options : PackageOptions) (before : FileTree) (hq : source.Quiet) :
    (∀ s, Preparation.Runs source target watch (.start before) s → before.OnlyDirectories target s.tree) ∧
      ∀ e after, (Package.generate source target watch options).run.run before = (.error e, after) →
        (∀ w, e ≠ .write w) →
          (∃ s, Preparation.Runs source target watch (.start before) s ∧ s.Fails target e ∧ s.tree = after) ∧
            before.OnlyDirectories target after := by
  have hruns : ∀ s, Preparation.Runs source target watch (.start before) s → before.OnlyDirectories target s.tree :=
    fun s hs => (hs.made hq).onlyDirectories
  refine ⟨hruns, fun e after h hwrite => ?_⟩
  rcases generate_failure h with ⟨w, rfl⟩ | ⟨s, hs, hfails, rfl⟩
  · exact absurd rfl (hwrite w)
  · exact ⟨⟨s, hs, hfails, rfl⟩, hruns s hs⟩

/-- A post names an author, and there are no authors. -/
def authorless : List Addition := [
  .document { name := "Post", fields := [⟨{ name := "author", label := none }, .object "Author"⟩] }]

def authorlessSource : ContentSource (StateM FileTree) := .memory {} (Schema.run authorless)

def absentSource : ContentSource (StateM FileTree) := .files "schema.json" "cache.json"

def siteBefore : FileTree where
  working := []
  entries := [(["out"], .directory), (["out", "package.json"], .file (.text "\x7b\x7d"))]

def siteAfter : FileTree where
  working := []
  entries := [(["out", "site"], .directory), (["out"], .directory), (["out", "package.json"], .file (.text "\x7b\x7d"))]

theorem authorless_writes_nothing :
    ((Package.generate authorlessSource "out/site" false {}).run.run siteBefore =
        (.error (.schema (.unresolvedObject "Post" "author" "Author")), siteAfter) ∧
      siteBefore.OnlyDirectories "out/site" siteAfter) ∧
    (Package.generate absentSource "out/site" false {}).run.run siteBefore =
        (.error (.source (.read "cache.json" .notFound)), siteBefore) ∧
      siteBefore.OnlyDirectories "out/site" siteBefore := by
  have hmemory : (Package.generate authorlessSource "out/site" false {}).run.run siteBefore =
      (.error (.schema (.unresolvedObject "Post" "author" "Author")), siteAfter) := by
    change (_ : Except GenerateError Summary × FileTree) = _
    decide +kernel
  have hfiles : (Package.generate absentSource "out/site" false {}).run.run siteBefore =
      (.error (.source (.read "cache.json" .notFound)), siteBefore) := by
    change (_ : Except GenerateError Summary × FileTree) = _
    decide +kernel
  refine ⟨⟨hmemory, ?_⟩, hfiles, ?_⟩
  · exact ((failure_writes_nothing _ _ _ _ siteBefore (ContentSource.memory_quiet _ _)).2 _ _ hmemory (by simp)).2
  · exact ((failure_writes_nothing _ _ _ _ siteBefore (ContentSource.files_quiet _ _)).2 _ _ hfiles (by simp)).2

end TypedContent

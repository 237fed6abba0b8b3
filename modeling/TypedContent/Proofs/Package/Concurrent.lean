import TypedContent.Proofs.Files.MadeAgain
import TypedContent.Proofs.Package.Preparation
import TypedContent.Proofs.Package.ReadBack

/-!
# Runs in any order

A run may make its target directory before, between or after it reads the cache and the schema, and may
take the steps of writing in any order. A run that does one thing after the other is one of these.
What a run has read from a file was there before it, but the way to the file may lead through a
directory that the run itself has made.
-/

namespace TypedContent

namespace FileTree

/-! ## What preparing does to the files -/

section
variable {t t' : FileTree} {origin p : Place} {ways : List String → Prop} {path text : String}

theorem readText_eq_ok : t.readText path = .ok text ↔ checkPath path = .ok () ∧ path.isEmpty = false ∧
    ∃ p, t.follow (t.start path) (Path.steps path) = .ok (.taken p (.file (.text text))) := by
  rw [readText, bind_eq_ok]
  constructor
  · intro h
    obtain ⟨target, htarget, hread⟩ := h
    rw [FileTree.target, check_bind_eq_ok] at htarget
    obtain ⟨hcheck, hfollow⟩ := htarget
    cases hempty : path.isEmpty with
    | true =>
      rw [hempty] at hfollow
      cases hfollow
    | false =>
      rw [hempty] at hfollow
      cases target with
      | free p => cases hread
      | taken p entry =>
        cases entry with
        | directory => cases hread
        | file content =>
          cases content with
          | bytes b => cases hread
          | text s =>
            cases hread
            exact ⟨hcheck, rfl, p, hfollow⟩
  · intro h
    obtain ⟨hcheck, hempty, p, hfollow⟩ := h
    refine ⟨.taken p (.file (.text text)), ?_, rfl⟩
    rw [FileTree.target, hcheck, hempty]
    exact hfollow

/-- A text that can be read once directories have been made could be read before, or its file was
not found. -/
theorem Made.readText_or (hmade : Made origin ways t t') (h : t'.readText path = .ok text) :
    t.readText path = .ok text ∨ t.readText path = .error .notFound ∧ (t.Sound → ".." ∈ Path.steps path) := by
  obtain ⟨hcheck, hempty, p, hfollow⟩ := readText_eq_ok.mp h
  have hstart : t'.start path = t.start path := by rw [start, start, hmade.working]
  rw [hstart] at hfollow
  rcases hmade.follow_file_or hfollow with hfound | hmissing
  · exact .inl (readText_eq_ok.mpr ⟨hcheck, hempty, p, hfound⟩)
  · refine .inr ⟨?_, fun hs => ?_⟩
    · rw [readText, FileTree.target, hcheck, hempty]
      simp only [bind, Except.bind, Bool.false_eq_true, if_false, hmissing]
    · by_contra hdots
      rw [hmade.follow_file hs hdots hfollow] at hmissing
      cases hmissing

theorem makeDirectory_there (h : t.reach path = .ok (.taken p .directory)) : (t.makeDirectory path).1 = t := by
  unfold makeDirectory
  cases checkPath path with
  | error e => rfl
  | ok =>
    have hleads : t.Leads (t.start path) (Path.steps (Path.dropTrailingSlashes path)) p := by
      rw [← leads_moves, (Path.steps_dropTrailingSlashes path).2, leads_moves]
      exact leads_of_follow h
    exact congrArg Prod.fst (makeAll_leads hleads)

end

/-- The files on the way of a run to the target: at most directories have been made, and none if the
target was there. -/
structure Prepares (target : String) (before t : FileTree) : Prop where
  made : Made (before.start target) (· <+: Path.steps target) before t
  there : ∀ p, before.reach target = .ok (.taken p .directory) → t = before

end FileTree

namespace Preparation

section
variable {source : ContentSource (StateM FileTree)} {target : String} {watch : Bool} {before : FileTree}
  {s s' : Preparation}

theorem Step.prepares (hq : source.Quiet) (h : before.Prepares target s.tree) (hstep : Step source target watch s s') :
    before.Prepares target s'.tree := by
  refine ⟨hstep.made hq h.made, fun p hp => ?_⟩
  have htree := h.there p hp
  cases hstep with
  | fetch _ hrun =>
    have ht := hq.fetch ⟨watch, true⟩ s.tree
    rw [hrun] at ht
    exact ht.trans htree
  | schema _ hrun =>
    have ht := hq.schema s.tree
    rw [hrun] at ht
    exact ht.trans htree
  | directory _ hrun =>
    rw [htree, FileTree.run_makeDirectory] at hrun
    rw [← FileTree.makeDirectory_there hp]
    exact (congrArg Prod.snd hrun).symm

theorem Runs.prepares (hq : source.Quiet) (h : Runs source target watch (.start before) s) :
    before.Prepares target s.tree := by
  induction h with
  | refl => exact ⟨.refl before, fun _ _ => rfl⟩
  | tail _ hstep ih => exact hstep.prepares hq ih

/-- The schema that a run has got was read at some point of preparing. -/
theorem Runs.schema_read (hq : source.Quiet) (h : Runs source target watch (.start before) s)
    {result : Except SourceError Schema} (hs : s.schema = some result) :
    ∃ t, before.Prepares target t ∧ (source.schema.run t).1 = result := by
  induction h with
  | refl => cases hs
  | @tail s s' hruns hstep ih =>
    cases hstep with
    | fetch _ _ => exact ih hs
    | schema _ hrun =>
      cases hs
      exact ⟨s.tree, Runs.prepares hq hruns, congrArg Prod.fst hrun⟩
    | directory _ _ => exact ih hs

end

end Preparation

namespace Package

/-! ## Runs that end well -/

/-- A run that ends well. Everything is prepared, in some order, and then all artifacts are written by
steps in some order. -/
inductive Generates (source : ContentSource (StateM FileTree)) (target : String) (watch : Bool) (options : PackageOptions)
    (before : FileTree) : Summary → FileTree → Prop
  | of {s : Preparation} {cache : Cache} {schema : Schema} {c : Canonical.Schema}
    {results : List (Except WriteError String)} {written : List String} {after : FileTree} :
    Preparation.Runs source target watch (.start before) s → s.cache = some (.ok cache) →
    s.schema = some (.ok schema) → s.directory = some (.ok ()) → schema.normalize = .ok c →
    Writing.Runs target (build c cache options) (.start s.tree (build c cache options)) ⟨after, results.map .done⟩ →
    firstError results = .ok written →
    Generates source target watch options before ⟨cache.documents.length, c.documents.size, c.objects.size, written⟩ after

section
variable {source : ContentSource (StateM FileTree)} {target : String} {watch : Bool} {options : PackageOptions}
  {before after : FileTree} {summary : Summary}

/-- A run that does one thing after the other is such a run. -/
theorem generates_of_generate (h : (generate source target watch options).run.run before = (.ok summary, after)) :
    Generates source target watch options before summary after := by
  obtain ⟨cache, fetched, s, provided, made, c, hfetch, hschema, hmade, hc, hwritten, hsummary⟩ := generate_eq_ok.mp h
  have hruns : Preparation.Runs source target watch (.start before) ⟨made, some (.ok cache), some (.ok s), some (.ok ())⟩ :=
    ((Relation.ReflTransGen.single (.fetch rfl hfetch)).tail (.schema rfl hschema)).tail (.directory rfl hmade)
  rcases hrun : (writeEach target (build c cache options) : StateM FileTree _).run made with ⟨results, t⟩
  rw [writeArtifacts_run hrun] at hwritten
  obtain ⟨hok, rfl⟩ := Prod.mk.inj hwritten
  rw [hsummary]
  exact .of hruns rfl rfl rfl hc (runs_of_writeEach hrun) hok

end

end Package

end TypedContent

import Mathlib
import TypedContent.Proofs.Files.MadeAgain
import TypedContent.Proofs.Package.Interleaving

/-!
# Generating a package again

A run on the tree that an earlier run of the same source has left: the directory is there or cannot
be made, the canonical schema is the same, and each artifact fares as it did, whatever the earlier
run has left of it. So nothing changes. Only the failure to make the directory may be told in
another way.
-/

namespace TypedContent

/-- The source that answers the same whenever it is asked. -/
def ContentSource.fixed (cache : FetchOptions → Except SourceError Cache) (schema : Except SourceError Schema) :
    ContentSource (StateM FileTree) where
  fetch options := return cache options
  schema := return schema

namespace Package

/-! ## Artifacts -/

section
variable {t t' t'' : FileTree} {directory : String} {p : Place} {artifacts : List Artifact}

/-- What is written on top of what was written is what would have been written at first. -/
theorem Reached.again {w w' : Writing} (h : Reached t directory p artifacts w) (hend : w.Ended directory artifacts)
    (h' : Reached w.tree directory p artifacts w') (hend' : w'.Ended directory artifacts) :
    Reached t directory p artifacts w' where
  length := h'.length
  directories := h.directories.trans h'.directories
  cells i a ha := by
    obtain ⟨result, -, hcell⟩ := h.outcome hend ha
    obtain ⟨result', hp', hcell'⟩ := h'.outcome hend' ha
    have htemporary : w.tree.at? (p ++ [temporaryName a]) = _ := congrArg Cell.temporary hcell
    have hfinal : w.tree.at? (p ++ [a.fileName]) = _ := congrArg Cell.final hcell
    refine ⟨.done result', 3, hp', ?_⟩
    rw [hcell', htemporary, hfinal, Cell.outcome_again]
    exact (Cell.step_three ..).symm
  elsewhere q hq := (h'.elsewhere q hq).trans (h.elsewhere q hq)

theorem writeEach_again (directory : String) (hs : Separate artifacts) (t : FileTree) : ∃ results between after,
    (writeEach directory artifacts : StateM FileTree _).run t = (results, between) ∧
      (writeEach directory artifacts : StateM FileTree _).run between = (results, after) ∧
      t.SameDirectories between ∧ between.Same after := by
  by_cases hd : ∃ p, t.reach directory = .ok (.taken p .directory)
  · obtain ⟨p, hd⟩ := hd
    rcases hrun : (writeEach directory artifacts : StateM FileTree _).run t with ⟨results, between⟩
    rcases hrun' : (writeEach directory artifacts : StateM FileTree _).run between with ⟨results', after⟩
    have h : Reached t directory p artifacts ⟨between, results.map .done⟩ := reached_of_runs hd hs (runs_of_writeEach hrun)
    have h' : Reached between directory p artifacts ⟨after, results'.map .done⟩ :=
      reached_of_runs (h.directories.reach hd) hs (runs_of_writeEach hrun')
    obtain ⟨hprogress, hsame⟩ := h.unique (h.again ended_of_done h' ended_of_done) ended_of_done ended_of_done
    have hresults : results = results' := List.map_injective_iff.mpr (fun _ _ e => Progress.done.inj e) hprogress
    subst hresults
    exact ⟨results, between, after, rfl, hrun', h.directories, hsame⟩
  · rcases hrun : (writeEach directory artifacts : StateM FileTree _).run t with ⟨results, after⟩
    obtain rfl : after = t := (nowhere_of_runs (not_exists.mp hd) hs.components (runs_of_writeEach hrun)).tree
    exact ⟨results, after, after, rfl, hrun, .refl after, rfl, fun _ => rfl⟩

end

/-- The outcome of a run of a fixed source, once the directory is made. -/
def outcome (target : String) (options : PackageOptions) (cache : Cache) (schema : Schema) (t : FileTree) :
    Except GenerateError Summary × FileTree :=
  match schema.normalize with
  | .error e => (.error (.schema e), t)
  | .ok c =>
    match (writeArtifacts target (build c cache options) : StateM FileTree _).run t with
    | (.error e, t') => (.error (.write e), t')
    | (.ok written, t') => (.ok ⟨cache.documents.length, c.documents.size, c.objects.size, written⟩, t')

theorem generate_fixed (cache : FetchOptions → Except SourceError Cache) (schema : Except SourceError Schema)
    (target : String) (watch : Bool) (options : PackageOptions) (t : FileTree) :
    (generate (.fixed cache schema) target watch options).run.run t =
      match cache ⟨watch, true⟩, schema with
      | .error e, _ => (.error (.source e), t)
      | .ok _, .error e => (.error (.source e), t)
      | .ok cache, .ok schema =>
        match t.makeDirectory target with
        | (t', .error e) => (.error (.directory target e), t')
        | (t', .ok ()) => outcome target options cache schema t' := by
  simp only [generate, run_orFail_bind, ContentSource.fixed, StateT.run_pure, FileTree.run_makeDirectory]
  cases cache ⟨watch, true⟩ with
  | error e => rfl
  | ok cache =>
    cases schema with
    | error e => rfl
    | ok schema =>
      rcases hmade : t.makeDirectory target with ⟨t', e | _⟩
      · simp only [pure, hmade]
      · simp only [pure, hmade]
        unfold outcome
        cases schema.normalize with
        | error e => rfl
        | ok c =>
          simp only
          rcases (writeArtifacts target (build c cache options) : StateM FileTree _).run t' with ⟨e | written, t''⟩ <;> rfl

theorem outcome_again (target : String) (options : PackageOptions) (cache : Cache) (calls : List Addition)
    (t : FileTree) : ∃ result between after, outcome target options cache (Schema.run calls) t = (result, between) ∧
      outcome target options cache (Schema.run calls) between = (result, after) ∧
      t.SameDirectories between ∧ between.Same after := by
  unfold outcome
  cases h : (Schema.run calls).normalize with
  | error e => exact ⟨_, t, t, rfl, rfl, .refl t, rfl, fun _ => rfl⟩
  | ok c =>
    obtain ⟨found, hn⟩ := Schema.normalized_of_ok h
    have hs : Separate (build c cache options) :=
      build_separate hn.documents_nodup (TypeScript.names_identifier hn (Schema.run_valid calls) .document)
    obtain ⟨results, between, after, hrun, hrun', hdirectories, hsame⟩ := writeEach_again target hs t
    simp only [writeArtifacts_run hrun]
    cases hfirst : firstError results with
    | error e =>
      refine ⟨_, between, after, rfl, ?_, hdirectories, hsame⟩
      simp only [writeArtifacts_run hrun', hfirst]
    | ok written =>
      refine ⟨_, between, after, rfl, ?_, hdirectories, hsame⟩
      simp only [writeArtifacts_run hrun', hfirst]

/-- A second run of a source that answers the same, on the tree that the first one left, changes
nothing and has the same result. The one exception is a target that cannot be made: the file on its
way may be found first as something that is there, and then as something that is no directory. That
takes a target that leaves a directory by `..`. -/
theorem generate_again (cache : FetchOptions → Except SourceError Cache) (calls : Except SourceError (List Addition))
    (target : String) (watch : Bool) (options : PackageOptions) (before : FileTree) :
    ∃ first between second after,
      (generate (.fixed cache (calls.map Schema.run)) target watch options).run.run before = (first, between) ∧
      (generate (.fixed cache (calls.map Schema.run)) target watch options).run.run between = (second, after) ∧
      between.Same after ∧
      (second = first ∨
        first = .error (.directory target .alreadyExists) ∧ second = .error (.directory target .notDirectory)) ∧
      (before.Sound → ".." ∉ Path.steps target → second = first) := by
  have hrefl : before.Same before := ⟨rfl, fun _ => rfl⟩
  cases hcache : cache ⟨watch, true⟩ with
  | error e =>
    refine ⟨.error (.source e), before, .error (.source e), before, ?_, ?_, hrefl, .inl rfl, fun _ _ => rfl⟩ <;>
      rw [generate_fixed, hcache]
  | ok content =>
    cases calls with
    | error e =>
      refine ⟨.error (.source e), before, .error (.source e), before, ?_, ?_, hrefl, .inl rfl, fun _ _ => rfl⟩ <;>
        rw [generate_fixed, hcache] <;> rfl
    | ok calls =>
      have hrun : ∀ t, (generate (.fixed cache ((Except.ok calls).map Schema.run)) target watch options).run.run t =
          match t.makeDirectory target with
          | (t', .error e) => (.error (.directory target e), t')
          | (t', .ok ()) => outcome target options content (Schema.run calls) t' := by
        intro t
        rw [generate_fixed, hcache]
        rfl
      -- only a target that could not be made can fail in another way the second time
      rcases hmade : before.makeDirectory target with ⟨made, e | _⟩
      · obtain ⟨e', hagain, hkind, hsame⟩ := FileTree.makeDirectory_error_again hmade
        refine ⟨.error (.directory target e), made, .error (.directory target e'), made, by rw [hrun, hmade],
          by rw [hrun, hagain], ⟨rfl, fun _ => rfl⟩, ?_, fun hs hdots => ?_⟩
        · rcases hkind with rfl | ⟨rfl, rfl⟩
          · exact .inl rfl
          · exact .inr ⟨rfl, rfl⟩
        · rw [hsame hs hdots]
      · obtain ⟨result, between, after, hfirst, hsecond, hdirectories, hsame⟩ :=
          outcome_again target options content calls made
        have hagain := FileTree.makeDirectory_ok_again hmade hdirectories
        exact ⟨result, between, result, after, by rw [hrun, hmade]; exact hfirst, by rw [hrun, hagain]; exact hsecond,
          hsame, .inl rfl, fun _ _ => rfl⟩

theorem blog_generated_again :
    cluttered.Sound ∧ ".." ∉ Path.steps "out" ∧ ∃ first between after,
      (generate (.fixed (fun _ => .ok blogCache) ((Except.ok blog).map Schema.run)) "out" false {}).run.run cluttered =
          (first, between) ∧
        (generate (.fixed (fun _ => .ok blogCache) ((Except.ok blog).map Schema.run)) "out" false {}).run.run between =
          (first, after) ∧
        between.Same after := by
  have hsound : cluttered.Sound := FileTree.sound_of_entries (by decide +kernel)
  have hdots : ".." ∉ Path.steps "out" := by decide
  obtain ⟨first, between, second, after, hfirst, hsecond, hsame, -, heq⟩ :=
    generate_again (fun _ => .ok blogCache) (.ok blog) "out" false {} cluttered
  obtain rfl := heq hsound hdots
  exact ⟨hsound, hdots, second, between, after, hfirst, hsecond, hsame⟩

/-- A file, and a target that would be in it, by way of a directory that is missing. -/
def fileOnTheWay : FileTree where
  working := []
  entries := [(["file"], .file (.text ""))]

def emptySource : ContentSource (StateM FileTree) := .fixed (fun _ => .ok {}) ((Except.ok []).map Schema.run)

theorem generate_twice_differs : ∃ between,
    (generate emptySource "missing/../file/x" false {}).run.run fileOnTheWay =
        (.error (.directory "missing/../file/x" .alreadyExists), between) ∧
      (generate emptySource "missing/../file/x" false {}).run.run between =
        (.error (.directory "missing/../file/x" .notDirectory), between) := by
  refine ⟨⟨[], [(["missing"], .directory), (["file"], .file (.text ""))]⟩, ?_, ?_⟩
  · change (_ : Except GenerateError Summary × FileTree) = _
    decide +kernel
  · change (_ : Except GenerateError Summary × FileTree) = _
    decide +kernel

end Package

end TypedContent

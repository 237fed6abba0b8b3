import Mathlib
import TypedContent.Proofs.Package.FileNames

/-!
# Artifacts written at the same time

The steps of all artifacts may be taken in any order. A step of one artifact leaves the cells of
the others alone as long as their files have different names, so whatever the order, each cell
goes through the steps that it would go through on its own. What comes out is what comes out when
the artifacts are written one after the other.
-/

namespace TypedContent

namespace Package

/-- Artifacts in the course of being written: the files, and how far each artifact has come. -/
structure Writing where
  tree : FileTree
  progress : List Progress

namespace Writing

def start (t : FileTree) (artifacts : List Artifact) : Writing := ⟨t, artifacts.map fun _ => .begun⟩

/-- One artifact that is not done takes a step. -/
inductive Step (directory : String) (artifacts : List Artifact) : Writing → Writing → Prop
  | of {w : Writing} {i : Nat} {a : Artifact} {p : Progress} : artifacts[i]? = some a → w.progress[i]? = some p →
    (∀ result, p ≠ .done result) → Step directory artifacts w
      ⟨(advance directory a p w.tree).2, w.progress.set i (advance directory a p w.tree).1⟩

abbrev Runs (directory : String) (artifacts : List Artifact) : Writing → Writing → Prop :=
  Relation.ReflTransGen (Step directory artifacts)

def Ended (directory : String) (artifacts : List Artifact) (w : Writing) : Prop := ∀ w', ¬Step directory artifacts w w'

end Writing

/-! ## Cells side by side -/

/-- What has become of the files: each cell has taken some steps from where it was at first. -/
structure Reached (t : FileTree) (directory : String) (p : Place) (artifacts : List Artifact) (w : Writing) : Prop where
  length : w.progress.length = artifacts.length
  directories : t.SameDirectories w.tree
  cells : ∀ (i : Nat) (a : Artifact), artifacts[i]? = some a → ∃ progress k, w.progress[i]? = some progress ∧
    cell w.tree p a progress = (Cell.step directory a)^[k] (cell t p a .begun)
  elsewhere : ∀ q : Place, (∀ a ∈ artifacts, ∀ name ∈ fileNames a, q ≠ p ++ [name]) → w.tree.at? q = t.at? q

section
variable {t : FileTree} {directory : String} {p : Place} {artifacts : List Artifact} {w w' : Writing}

theorem reached_start : Reached t directory p artifacts (.start t artifacts) where
  length := by simp [Writing.start]
  directories := .refl t
  cells i a ha := ⟨.begun, 0, by rw [Writing.start, List.getElem?_map, ha]; rfl, rfl⟩
  elsewhere _ _ := rfl

section
variable (hd : t.reach directory = .ok (.taken p .directory)) (hs : Separate artifacts)
include hd hs

theorem Reached.step (h : Reached t directory p artifacts w) (hstep : Writing.Step directory artifacts w w') :
    Reached t directory p artifacts w' := by
  obtain @⟨i, a, progress, ha, hp, -⟩ := hstep
  have hmem : a ∈ artifacts := List.mem_of_getElem? ha
  obtain ⟨hprogress, hturns⟩ := advance_cell (h.directories.reach hd) (hs.components a hmem) progress
  refine ⟨by simp [h.length], h.directories.trans hturns.directories, fun j b hb => ?_, fun q hq => ?_⟩
  · obtain ⟨progress', k, hp', hk⟩ := h.cells j b hb
    -- the artifact's own cell goes one step on, and all other cells stay
    by_cases hij : i = j
    · subst hij
      rw [ha] at hb
      cases hb
      rw [hp] at hp'
      cases hp'
      refine ⟨_, k + 1, List.getElem?_set_self (by rw [h.length]; exact (List.getElem?_eq_some_iff.mp ha).1), ?_⟩
      rw [Function.iterate_succ_apply', ← hk]
      unfold cell
      rw [hturns.temporary, hturns.final, ← hprogress]
      rfl
    · refine ⟨progress', k, by rw [List.getElem?_set_ne hij, hp'], ?_⟩
      -- the places of the other artifact are none of those that the step is about
      have hkeep : ∀ name ∈ fileNames b, (advance directory a progress w.tree).2.at? (p ++ [name]) =
          w.tree.at? (p ++ [name]) := by
        intro name hname
        refine hturns.elsewhere _ (fun e => ?_) fun e => ?_
        · exact hs.names_ne ha hb hij (mem_fileNames_temporary a) hname (by simpa using e.symm)
        · exact hs.names_ne ha hb hij (mem_fileNames_final a) hname (by simpa using e.symm)
      rw [← hk]
      unfold cell
      rw [hkeep _ (mem_fileNames_temporary b), hkeep _ (mem_fileNames_final b)]
  · rw [hturns.elsewhere q (hq a hmem _ (mem_fileNames_temporary a)) (hq a hmem _ (mem_fileNames_final a)),
      h.elsewhere q hq]

theorem reached_of_runs (h : Writing.Runs directory artifacts (.start t artifacts) w) :
    Reached t directory p artifacts w := by
  induction h with
  | refl => exact reached_start
  | tail _ hstep ih => exact ih.step hd hs hstep

end

/-- At the end every cell has come to the outcome that was to be expected at the start. -/
theorem Reached.outcome (h : Reached t directory p artifacts w) (hend : w.Ended directory artifacts) {i : Nat}
    {a : Artifact} (ha : artifacts[i]? = some a) : ∃ result, w.progress[i]? = some (.done result) ∧
      cell w.tree p a (.done result) =
        Cell.outcome directory a (t.at? (p ++ [temporaryName a])) (t.at? (p ++ [a.fileName])) := by
  obtain ⟨progress, k, hp, hk⟩ := h.cells i a ha
  obtain ⟨result, rfl⟩ : ∃ result, progress = .done result := by
    by_contra hnot
    exact hend _ (.of ha hp fun result e => hnot ⟨result, e⟩)
  have hdone : ((Cell.step directory a)^[k] (cell t p a .begun)).progress = .done result := by rw [← hk]; rfl
  exact ⟨result, hp, hk.trans (Cell.iterate_of_done directory a hdone)⟩

theorem Reached.unique (h : Reached t directory p artifacts w) (h' : Reached t directory p artifacts w')
    (hend : w.Ended directory artifacts) (hend' : w'.Ended directory artifacts) :
    w.progress = w'.progress ∧ w.tree.Same w'.tree := by
  have hcells : ∀ (i : Nat) (a : Artifact), artifacts[i]? = some a → ∃ result,
      w.progress[i]? = some (.done result) ∧ w'.progress[i]? = some (.done result) ∧
        cell w.tree p a (.done result) = cell w'.tree p a (.done result) := by
    intro i a ha
    obtain ⟨result, hp, hc⟩ := h.outcome hend ha
    obtain ⟨result', hp', hc'⟩ := h'.outcome hend' ha
    have hresult := congrArg Cell.progress (hc.trans hc'.symm)
    cases hresult
    exact ⟨result, hp, hp', hc.trans hc'.symm⟩
  refine ⟨List.ext_getElem? fun i => ?_, h.directories.working.symm.trans h'.directories.working, fun q => ?_⟩
  · cases ha : artifacts[i]? with
    | none =>
      have hlength := List.getElem?_eq_none_iff.mp ha
      rw [List.getElem?_eq_none (by rw [h.length]; exact hlength), List.getElem?_eq_none (by rw [h'.length]; exact hlength)]
    | some a =>
      obtain ⟨result, hp, hp', -⟩ := hcells i a ha
      rw [hp, hp']
  · -- a place that no artifact names is as it was at the start, and any other is in a cell
    by_cases hq : ∀ a ∈ artifacts, ∀ name ∈ fileNames a, q ≠ p ++ [name]
    · rw [h.elsewhere q hq, h'.elsewhere q hq]
    · simp only [not_forall, not_not] at hq
      obtain ⟨a, ha, name, hname, rfl⟩ := hq
      obtain ⟨i, hi⟩ := List.getElem?_of_mem ha
      obtain ⟨result, -, -, hcell⟩ := hcells i a hi
      simp only [fileNames, List.mem_cons, List.not_mem_nil, or_false] at hname
      rcases hname with rfl | rfl
      · exact congrArg Cell.final hcell
      · exact congrArg Cell.temporary hcell

end

/-! ## One after the other -/

section
variable {directory : String}

theorem advance_runs {before after : List Progress} {done rest : List Artifact} {a : Artifact} {p p' : Progress}
    {t t' : FileTree} (hlength : before.length = done.length) (h : advance directory a p t = (p', t')) :
    Writing.Runs directory (done ++ a :: rest) ⟨t, before ++ p :: after⟩ ⟨t', before ++ p' :: after⟩ := by
  by_cases hdone : ∃ result, p = .done result
  · obtain ⟨result, rfl⟩ := hdone
    rw [advance_done] at h
    cases h
    exact .refl
  · have hartifact : (done ++ a :: rest)[before.length]? = some a := by rw [hlength]; simp
    have hprogress : (before ++ p :: after)[before.length]? = some p := by simp
    have hset : (before ++ p :: after).set before.length p' = before ++ p' :: after := by simp
    have hstep : Writing.Step directory (done ++ a :: rest) ⟨t, before ++ p :: after⟩ _ :=
      .of hartifact hprogress fun result e => hdone ⟨result, e⟩
    rw [h, hset] at hstep
    exact .single hstep

theorem writeEach_cons {a : Artifact} {rest : List Artifact} {t between t' : FileTree}
    {result : Except WriteError String} {results : List (Except WriteError String)}
    (h : (writeArtifact directory a : StateM FileTree _).run t = (result, between))
    (hrest : (writeEach directory rest : StateM FileTree _).run between = (results, t')) :
    (writeEach directory (a :: rest) : StateM FileTree _).run t = (result :: results, t') := by
  rw [writeEach, StateT.run_bind, h]
  change (do let results ← writeEach directory rest; pure (result :: results) : StateM FileTree _).run between = _
  rw [StateT.run_bind, hrest]
  rfl

theorem writeArtifacts_run {artifacts : List Artifact} {t t' : FileTree} {results : List (Except WriteError String)}
    (h : (writeEach directory artifacts : StateM FileTree _).run t = (results, t')) :
    (writeArtifacts directory artifacts : StateM FileTree _).run t = (firstError results, t') := by
  rw [writeArtifacts, StateT.run_bind, h]
  rfl

theorem writeEach_runs (rest done : List Artifact) (before : List Progress) {t t' : FileTree}
    {results : List (Except WriteError String)} (hlength : before.length = done.length)
    (h : (writeEach directory rest : StateM FileTree _).run t = (results, t')) :
    Writing.Runs directory (done ++ rest) ⟨t, before ++ rest.map fun _ => .begun⟩
      ⟨t', before ++ results.map .done⟩ := by
  induction rest generalizing done before t t' results with
  | nil =>
    cases h
    exact .refl
  | cons a rest ih =>
    rcases hfirst : (writeArtifact directory a : StateM FileTree _).run t with ⟨result, between⟩
    rcases hothers : (writeEach directory rest : StateM FileTree _).run between with ⟨others, final⟩
    rw [writeEach_cons hfirst hothers] at h
    cases h
    obtain ⟨p₁, t₁, p₂, t₂, h₁, h₂, h₃⟩ := writeArtifact_steps directory a t hfirst
    have hrest := ih (done ++ [a]) (before ++ [.done result]) (by simp [hlength]) hothers
    rw [List.append_assoc, List.append_assoc, List.append_assoc] at hrest
    exact (((advance_runs hlength h₁).trans (advance_runs hlength h₂)).trans (advance_runs hlength h₃)).trans hrest

/-- Writing one artifact after the other is a run. -/
theorem runs_of_writeEach {artifacts : List Artifact} {t t' : FileTree} {results : List (Except WriteError String)}
    (h : (writeEach directory artifacts : StateM FileTree _).run t = (results, t')) :
    Writing.Runs directory artifacts (.start t artifacts) ⟨t', results.map .done⟩ :=
  writeEach_runs artifacts [] [] rfl h

theorem ended_of_done {artifacts : List Artifact} {results : List (Except WriteError String)} {t : FileTree} :
    Writing.Ended directory artifacts ⟨t, results.map .done⟩ := by
  intro w' hstep
  obtain @⟨i, a, p, _, hp, hnot⟩ := hstep
  rw [List.getElem?_map, Option.map_eq_some_iff] at hp
  obtain ⟨result, -, rfl⟩ := hp
  exact hnot result rfl

end

/-! ## Where there is no directory -/

/-- Nothing has been written, and nothing can be. -/
structure Nowhere (t : FileTree) (artifacts : List Artifact) (w : Writing) : Prop where
  tree : w.tree = t
  length : w.progress.length = artifacts.length
  progress : ∀ p ∈ w.progress, p = .begun ∨ (∃ e, p = .failed e) ∨ ∃ e, p = .done (.error e)

section
variable {directory : String} {t : FileTree} {artifacts : List Artifact} {w : Writing}
  (h : ∀ p, t.reach directory ≠ .ok (.taken p .directory))
include h

theorem target_nowhere {a : Artifact} (ha : Path.IsComponent a.fileName) :
    ∃ e, t.target (temporaryPath directory a.fileName) = .error e := by
  rw [temporaryPath_eq directory ha, FileTree.target_join (temporary_isComponent ha)]
  cases checkPath (Path.join (Path.trim directory) (temporaryName a)) with
  | error e => exact ⟨e, rfl⟩
  | ok =>
    cases hreach : t.reach (Path.trim directory) with
    | error e => exact ⟨e, rfl⟩
    | ok target =>
      cases target with
      | free q => exact ⟨.notFound, rfl⟩
      | taken q entry =>
        cases entry with
        | directory => exact absurd (FileTree.reach_trim.mp hreach) (h q)
        | file c => exact ⟨.notDirectory, FileTree.follow_file (FileTree.finds_of_follow hreach).seen _ []⟩

theorem nowhere_of_runs (ha : ∀ a ∈ artifacts, Path.IsComponent a.fileName)
    (hw : Writing.Runs directory artifacts (.start t artifacts) w) : Nowhere t artifacts w := by
  induction hw with
  | refl =>
    refine ⟨rfl, by simp [Writing.start], fun p hp => .inl ?_⟩
    obtain ⟨a, -, rfl⟩ := List.mem_map.mp hp
    rfl
  | tail _ hstep ih =>
    obtain ⟨htree, hlength, hprogress⟩ := ih
    obtain @⟨i, a, p, hi, hp, hnot⟩ := hstep
    rw [htree]
    have hadvance : ∃ p', advance directory a p t = (p', t) ∧
        ((∃ e, p' = .failed e) ∨ ∃ e, p' = .done (.error e)) := by
      obtain ⟨e, he⟩ := target_nowhere h (ha a (List.mem_of_getElem? hi))
      rcases hprogress p (List.mem_of_getElem? hp) with rfl | ⟨e', rfl⟩ | ⟨e', rfl⟩
      · exact ⟨_, advance_begun_of_target directory a t he, .inl ⟨e, rfl⟩⟩
      · exact ⟨_, advance_failed_of_target directory a t he e', .inr ⟨_, rfl⟩⟩
      · exact absurd rfl (hnot _)
    obtain ⟨p', e, hp'⟩ := hadvance
    rw [e]
    refine ⟨rfl, by simp [hlength], fun q hq => ?_⟩
    rcases List.mem_or_eq_of_mem_set hq with hq | rfl
    · exact hprogress q hq
    · exact .inr hp'

end

/-! ## Every run ends -/

def Progress.remaining : Progress → Nat
  | .begun => 3
  | .written => 2
  | .failed _ => 1
  | .done _ => 0

theorem advance_remaining {directory : String} {a : Artifact} {p : Progress} {t : FileTree}
    (h : ∀ result, p ≠ .done result) : (advance directory a p t).1.remaining < p.remaining := by
  cases p with
  | begun =>
    rw [advance_begun]
    cases t.writeText (temporaryPath directory a.fileName) a.content <;> simp [settle, Progress.remaining]
  | written =>
    rw [advance_written]
    cases t.rename (temporaryPath directory a.fileName) (Path.join directory a.fileName) <;>
      simp [settle, Progress.remaining]
  | failed e =>
    rw [advance_failed_done]
    simp [Progress.remaining]
  | done result => exact absurd rfl (h result)

theorem sum_set_lt {α : Type} (f : α → Nat) {x y : α} (hlt : f y < f x) : ∀ {xs : List α} {i : Nat},
    xs[i]? = some x → ((xs.set i y).map f).sum < (xs.map f).sum
  | [], _, h => by simp at h
  | z :: xs, 0, h => by
    cases h
    simpa using hlt
  | z :: xs, i + 1, h => by
    have ih : ((xs.set i y).map f).sum < (xs.map f).sum := sum_set_lt f hlt (by simpa using h)
    simpa using ih

theorem Writing.step_wellFounded (directory : String) (artifacts : List Artifact) :
    WellFounded fun w' w => Writing.Step directory artifacts w w' := by
  refine Subrelation.wf ?_ (measure fun w : Writing => (w.progress.map Progress.remaining).sum).wf
  intro w' w hstep
  obtain @⟨i, a, p, _, hp, hnot⟩ := hstep
  exact sum_set_lt Progress.remaining (advance_remaining hnot) hp

/-! ## The artifacts of a package -/

/-- Whatever calls built the schema: the files of the package and their temporary files have
different names, each the name of something in a directory. In a directory that is there, the
steps of the artifacts may be taken in any order: they come to an end, with the outcomes and the
files that there are when the artifacts are written one after the other. -/
theorem writes_do_not_interfere (calls : List Addition) (c : Canonical.Schema) (cache : Cache) (o : PackageOptions)
    (h : (Schema.run calls).normalize = .ok c) :
    ((build c cache o).flatMap fileNames).Nodup ∧
      (∀ a ∈ build c cache o, ∀ name ∈ fileNames a, Path.IsComponent name) ∧
      ∀ (directory : String) (t : FileTree) (p : Place), t.reach directory = .ok (.taken p .directory) →
        (WellFounded fun w' w => Writing.Step directory (build c cache o) w w') ∧
        ∃ results after, (writeEach directory (build c cache o) : StateM FileTree _).run t = (results, after) ∧
          (writeArtifacts directory (build c cache o) : StateM FileTree _).run t = (firstError results, after) ∧
          ∀ w, Writing.Runs directory (build c cache o) (.start t (build c cache o)) w →
            (∀ q, (∀ a ∈ build c cache o, ∀ name ∈ fileNames a, q ≠ p ++ [name]) → w.tree.at? q = t.at? q) ∧
            (w.Ended directory (build c cache o) → w.progress = results.map .done ∧ w.tree.Same after) := by
  obtain ⟨found, hn⟩ := Schema.normalized_of_ok h
  have hid : ∀ name ∈ c.documents.names, TypeScript.isIdentifier name = true :=
    TypeScript.names_identifier hn (Schema.run_valid calls) .document
  have hs : Separate (build c cache o) := build_separate hn.documents_nodup hid
  refine ⟨hs.nodup, hs.isComponent, fun directory t p hd => ⟨Writing.step_wellFounded _ _, ?_⟩⟩
  rcases hrun : (writeEach directory (build c cache o) : StateM FileTree _).run t with ⟨results, after⟩
  have hruns : Writing.Runs directory (build c cache o) (.start t (build c cache o)) ⟨after, results.map .done⟩ :=
    runs_of_writeEach hrun
  have hend : Writing.Ended directory (build c cache o) ⟨after, results.map .done⟩ := ended_of_done
  refine ⟨results, after, rfl, ?_, fun w hw => ?_⟩
  · rw [writeArtifacts, StateT.run_bind, hrun]
    rfl
  · have hreached := reached_of_runs hd hs hw
    exact ⟨hreached.elsewhere, fun hended => hreached.unique (reached_of_runs hd hs hruns) hended hend⟩

/-- A directory with a leftover of an earlier run, and with a directory where a file should be. -/
def cluttered : FileTree where
  working := []
  entries := [(["out"], .directory), (["out", "index.js"], .directory),
    (["out", "allPost.js.tmp"], .file (.text "export const"))]

theorem blog_writes_do_not_interfere :
    (Schema.run blog).normalize = .ok blogCanonical ∧ cluttered.reach "out" = .ok (.taken ["out"] .directory) ∧
      ((build blogCanonical blogCache {}).flatMap fileNames).Nodup ∧
      ∃ results after,
        (writeArtifacts "out" (build blogCanonical blogCache {}) : StateM FileTree _).run cluttered =
          (firstError results, after) ∧
        ∀ w, Writing.Runs "out" (build blogCanonical blogCache {}) (.start cluttered (build blogCanonical blogCache {})) w →
          w.Ended "out" (build blogCanonical blogCache {}) → w.progress = results.map .done ∧ w.tree.Same after := by
  have h : (Schema.run blog).normalize = .ok blogCanonical := by cbv
  have hd : cluttered.reach "out" = .ok (.taken ["out"] .directory) := by cbv
  obtain ⟨hnodup, -, hall⟩ := writes_do_not_interfere blog blogCanonical blogCache {} h
  obtain ⟨-, results, after, -, hrun, hruns⟩ := hall "out" cluttered ["out"] hd
  exact ⟨h, hd, hnodup, results, after, hrun, fun w hw => (hruns w hw).2⟩

end Package

end TypedContent

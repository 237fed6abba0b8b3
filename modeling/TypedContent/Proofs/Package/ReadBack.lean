import TypedContent.Proofs.Package.Atomicity
import TypedContent.Proofs.Package.GeneratedAgain

/-!
# What has been written can be read

Artifacts that were written without a failure stand in their directory afterwards, each with its
content under its own name.
-/

namespace TypedContent

theorem FileTree.readText_of_reach {t : FileTree} {directory name text : String} {p : Place}
    (hd : t.reach directory = .ok (.taken p .directory)) (hn : Path.IsComponent name)
    (hadmits : admits directory name = .ok ()) (h : t.at? (p ++ [name]) = some (.file (.text text))) :
    t.readText (Path.join directory name) = .ok text := by
  rw [readText, target_of_reach hd hn, hadmits]
  simp only [bind, Except.bind, lookAt, h]

namespace Package

open FileTree (admits)

theorem firstError_eq_ok {results : List (Except WriteError String)} {paths : List String}
    (h : firstError results = .ok paths) : ∀ result ∈ results, ∃ path, result = .ok path := by
  induction results generalizing paths with
  | nil => exact List.forall_mem_nil _
  | cons result results ih =>
    cases result with
    | error e => cases h
    | ok path =>
      obtain ⟨rest, hrest, -⟩ := map_eq_ok.mp h
      exact List.forall_mem_cons.mpr ⟨⟨path, rfl⟩, ih hrest⟩

theorem admits_of_no_obstacle {directory : String} {t : FileTree} {p : Place} {a : Artifact}
    (h : obstacle directory t p a = none) : admits directory a.fileName = .ok () := by
  unfold obstacle Cell.obstacle at h
  split at h
  · cases h
  split at h
  · cases h
  split at h
  · cases h
  · assumption

section
variable {t after : FileTree} {directory : String} {artifacts : List Artifact}
  {results : List (Except WriteError String)} {written : List String} (hs : Separate artifacts)
  (hw : Writing.Runs directory artifacts (.start t artifacts) ⟨after, results.map .done⟩)
  (hok : firstError results = .ok written)
include hs hw hok

/-- Nothing can be written if the directory is not there. -/
theorem reach_of_written {a : Artifact} (ha : a ∈ artifacts) : ∃ p, t.reach directory = .ok (.taken p .directory) := by
  by_contra hnone
  obtain ⟨-, hlength, hprogress⟩ := nowhere_of_runs (not_exists.mp hnone) hs.components hw
  have hne : results ≠ [] := by
    rintro rfl
    exact List.ne_nil_of_mem ha (List.length_eq_zero_iff.mp hlength.symm)
  obtain ⟨result, hresult⟩ := List.exists_mem_of_ne_nil results hne
  obtain ⟨path, rfl⟩ := firstError_eq_ok hok result hresult
  rcases hprogress _ (List.mem_map_of_mem hresult) with h | ⟨e, h⟩ | ⟨e, h⟩ <;> cases h

/-- In whatever order the artifacts have been written, each of them can be read. -/
theorem read_of_written {a : Artifact} (ha : a ∈ artifacts) :
    after.readText (Path.join directory a.fileName) = .ok a.content := by
  obtain ⟨p, hd⟩ := reach_of_written hs hw hok ha
  have hreached : Reached t directory p artifacts ⟨after, results.map .done⟩ := reached_of_runs hd hs hw
  obtain ⟨i, hi⟩ := List.getElem?_of_mem ha
  -- the artifact met no obstacle, for it would have been reported
  have hnone : obstacle directory t p a = none := by
    have hdone := (hreached.outcome_eq ended_of_done hi).1
    obtain ⟨result, hresult, e⟩ := Option.map_eq_some_iff.mp (List.getElem?_map ▸ hdone)
    obtain ⟨path, rfl⟩ := firstError_eq_ok hok result (List.mem_of_getElem? hresult)
    have hattempt := (Progress.done.inj e).symm
    unfold attempt Cell.attempt at hattempt
    split at hattempt
    · cases hattempt
    · assumption
  exact FileTree.readText_of_reach (hreached.directories.reach hd) (hs.components a ha)
    (admits_of_no_obstacle hnone) ((hreached.settled ended_of_done).written a ha hnone)

end

end Package

end TypedContent

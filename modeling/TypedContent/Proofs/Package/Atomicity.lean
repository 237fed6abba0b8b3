import Mathlib
import TypedContent.Proofs.Package.Interleaving

/-!
# Each artifact whole or not at all

What keeps an artifact from being written stands in its own two places before anything is written:
its names are too long, or a directory is in the way. An artifact without such an obstacle has its
new content at the end, whatever becomes of the others. With one, its place is as it was before.
Either way its temporary file is gone, if it can be named at all.
-/

namespace TypedContent

namespace Package

open FileTree (admits)
open TypedContent.Path (trim)

/-! ## Obstacles -/

namespace Cell

variable (directory : String) (a : Artifact)

/-- What keeps an artifact from being written, by what stands in its two places. The temporary file
comes first, and its path may be shorter than that of the artifact. -/
def obstacle (temporary final : Option Entry) : Option FileError :=
  match admits (trim directory) (temporaryName a), admits directory a.fileName with
  | .error e, _ => some e
  | .ok (), admitted =>
    if temporary = some .directory then some .isDirectory
    else
      match admitted with
      | .error e => some e
      | .ok () => if final = some .directory then some .isDirectory else none

/-- What stands in the place of the temporary file afterwards. -/
def leftover (temporary : Option Entry) : Option Entry :=
  match admits (trim directory) (temporaryName a) with
  | .error _ => temporary
  | .ok () => if temporary = some .directory then temporary else none

def attempt (obstacle : Option FileError) : Except WriteError String :=
  match obstacle with
  | some e => failure directory a e
  | none => .ok (Path.join directory a.fileName)

variable {directory a}

theorem outcome_eq (temporary final : Option Entry) :
    outcome directory a temporary final =
      ⟨.done (attempt directory a (obstacle directory a temporary final)), leftover directory a temporary,
        if obstacle directory a temporary final = none then some (.file (.text a.content)) else final⟩ := by
  unfold outcome obstacle leftover
  cases admits (trim directory) (temporaryName a) with
  | error e => simp [attempt]
  | ok =>
    by_cases htemporary : temporary = some .directory
    · simp [htemporary, attempt]
    · cases admits directory a.fileName with
      | error e => simp [htemporary, attempt]
      | ok => by_cases hfinal : final = some .directory <;> simp [htemporary, hfinal, attempt]

end Cell

def obstacle (directory : String) (t : FileTree) (p : Place) (a : Artifact) : Option FileError :=
  Cell.obstacle directory a (t.at? (p ++ [temporaryName a])) (t.at? (p ++ [a.fileName]))

/-- How the writing of an artifact ends. -/
def attempt (directory : String) (t : FileTree) (p : Place) (a : Artifact) : Except WriteError String :=
  Cell.attempt directory a (obstacle directory t p a)

/-- What the files have come to when all artifacts have been tried. Limits on names are no concern
of the program: where a temporary file cannot even be named, what stands in its place stays. -/
structure Settled (directory : String) (artifacts : List Artifact) (p : Place) (t after : FileTree) : Prop where
  written : ∀ a ∈ artifacts, obstacle directory t p a = none →
    after.at? (p ++ [a.fileName]) = some (.file (.text a.content))
  kept : ∀ a ∈ artifacts, obstacle directory t p a ≠ none → after.at? (p ++ [a.fileName]) = t.at? (p ++ [a.fileName])
  cleared : ∀ a ∈ artifacts, admits (trim directory) (temporaryName a) = .ok () →
    ∀ content, after.at? (p ++ [temporaryName a]) ≠ some (.file content)
  unnamed : ∀ a ∈ artifacts, admits (trim directory) (temporaryName a) ≠ .ok () →
    after.at? (p ++ [temporaryName a]) = t.at? (p ++ [temporaryName a])
  elsewhere : ∀ q, (∀ a ∈ artifacts, q ≠ p ++ [a.fileName] ∧ q ≠ p ++ [temporaryName a]) → after.at? q = t.at? q
  directories : t.SameDirectories after

section
variable {t : FileTree} {directory : String} {p : Place} {artifacts : List Artifact} {w : Writing}

theorem Reached.outcome_eq (h : Reached t directory p artifacts w)
    (hend : w.Ended directory artifacts) {i : Nat} {a : Artifact} (ha : artifacts[i]? = some a) :
    w.progress[i]? = some (.done (attempt directory t p a)) ∧
      w.tree.at? (p ++ [temporaryName a]) = Cell.leftover directory a (t.at? (p ++ [temporaryName a])) ∧
      w.tree.at? (p ++ [a.fileName]) =
        if obstacle directory t p a = none then some (.file (.text a.content)) else t.at? (p ++ [a.fileName]) := by
  obtain ⟨result, hp, hcell⟩ := h.outcome hend ha
  rw [Cell.outcome_eq] at hcell
  obtain ⟨hresult, htemporary, hfinal⟩ := Cell.mk.inj hcell
  exact ⟨hp.trans (congrArg some hresult), htemporary, hfinal⟩

theorem Reached.progress_eq (h : Reached t directory p artifacts w)
    (hend : w.Ended directory artifacts) : w.progress = artifacts.map fun a => .done (attempt directory t p a) := by
  refine List.ext_getElem? fun i => ?_
  rw [List.getElem?_map]
  cases ha : artifacts[i]? with
  | none => exact List.getElem?_eq_none (h.length ▸ List.getElem?_eq_none_iff.mp ha)
  | some a => exact (h.outcome_eq hend ha).1

theorem Reached.settled (h : Reached t directory p artifacts w)
    (hend : w.Ended directory artifacts) : Settled directory artifacts p t w.tree := by
  have hall : ∀ a ∈ artifacts, _ := fun a ha =>
    let ⟨_, hi⟩ := List.getElem?_of_mem ha
    (h.outcome_eq hend hi).2
  constructor
  case written =>
    intro a ha hnone
    rw [(hall a ha).2, if_pos hnone]
  case kept =>
    intro a ha hsome
    rw [(hall a ha).2, if_neg hsome]
  case cleared =>
    intro a ha hadmits content
    rw [(hall a ha).1]
    unfold Cell.leftover
    rw [hadmits]
    by_cases hdirectory : t.at? (p ++ [temporaryName a]) = some .directory <;> simp [hdirectory]
  case unnamed =>
    intro a ha hadmits
    rw [(hall a ha).1]
    unfold Cell.leftover
    split
    · rfl
    · next hok => exact absurd hok hadmits
  case elsewhere =>
    refine fun q hq => h.elsewhere q fun a ha name hname => ?_
    simp only [fileNames, List.mem_cons, List.not_mem_nil, or_false] at hname
    rcases hname with rfl | rfl
    · exact (hq a ha).1
    · exact (hq a ha).2
  case directories => exact h.directories

end

/-! ## The reported failure -/

theorem firstError_map (directory : String) (f : Artifact → Option FileError) : ∀ artifacts : List Artifact,
    firstError (artifacts.map fun a => Cell.attempt directory a (f a)) =
      match artifacts.findSome? fun a => (f a).map (WriteError.mk (Path.join directory a.fileName)) with
      | some e => .error e
      | none => .ok (artifacts.map fun a => Path.join directory a.fileName)
  | [] => rfl
  | a :: artifacts => by
    rw [List.map_cons, List.findSome?_cons]
    cases h : f a with
    | some e => rfl
    | none =>
      change (_ :: ·) <$> firstError (artifacts.map fun a => Cell.attempt directory a (f a)) = _
      rw [firstError_map directory f artifacts]
      cases artifacts.findSome? fun a => (f a).map (WriteError.mk (Path.join directory a.fileName)) <;> rfl

/-- Artifacts are written into a directory that is there, under names in it that are different, as
are those of their temporary files. Whatever the directory holds, each of them fares as its own two
places let it, all other places stay as they are, and the first failure is reported, by the order of
the artifacts. The same files come out if the steps of the artifacts are taken in any other order. -/
theorem artifacts_settled (artifacts : List Artifact) (hs : Separate artifacts) (directory : String) (t : FileTree)
    (p : Place) (hd : t.reach directory = .ok (.taken p .directory)) :
    (∃ after, (writeEach directory artifacts : StateM FileTree _).run t =
          (artifacts.map (attempt directory t p), after) ∧
        (writeArtifacts directory artifacts : StateM FileTree _).run t =
          (match artifacts.findSome? fun a =>
              (obstacle directory t p a).map (WriteError.mk (Path.join directory a.fileName)) with
            | some e => .error e
            | none => .ok (artifacts.map fun a => Path.join directory a.fileName), after) ∧
        Settled directory artifacts p t after) ∧
      ∀ w, Writing.Runs directory artifacts (.start t artifacts) w → w.Ended directory artifacts →
        w.progress = artifacts.map (fun a => .done (attempt directory t p a)) ∧ Settled directory artifacts p t w.tree := by
  constructor
  · rcases hrun : (writeEach directory artifacts : StateM FileTree _).run t with ⟨results, after⟩
    have hreached : Reached t directory p artifacts ⟨after, results.map .done⟩ :=
      reached_of_runs hd hs (runs_of_writeEach hrun)
    have hresults : results = artifacts.map (attempt directory t p) := by
      have hprogress : results.map .done = (artifacts.map (attempt directory t p)).map Progress.done := by
        rw [List.map_map]
        exact hreached.progress_eq ended_of_done
      exact List.map_injective_iff.mpr (fun _ _ e => Progress.done.inj e) hprogress
    subst hresults
    refine ⟨after, rfl, ?_, hreached.settled ended_of_done⟩
    rw [writeArtifacts, StateT.run_bind, hrun, ← firstError_map directory (obstacle directory t p) artifacts]
    rfl
  · intro w hw hend
    have hreached := reached_of_runs hd hs hw
    exact ⟨hreached.progress_eq hend, hreached.settled hend⟩

def indexAndPosts : List Artifact :=
  [⟨"index.js", "export {};\n"⟩, ⟨"allPost.js", "export const allPost = [];\n"⟩]

/-- A directory is in the place of the first artifact, a leftover in that of the second one's
temporary file. -/
theorem indexAndPosts_settled : Separate indexAndPosts ∧ cluttered.reach "out" = .ok (.taken ["out"] .directory) ∧
    ∃ after, (writeArtifacts "out" indexAndPosts : StateM FileTree _).run cluttered =
        (.error ⟨"out/index.js", .isDirectory⟩, after) ∧
      Settled "out" indexAndPosts ["out"] cluttered after ∧ after.at? ["out", "index.js"] = some .directory ∧
      after.at? ["out", "allPost.js"] = some (.file (.text "export const allPost = [];\n")) ∧
      ∀ content, after.at? ["out", "allPost.js.tmp"] ≠ some (.file content) := by
  have hs : Separate indexAndPosts :=
    ⟨by decide, fun a ha => by
      simp only [indexAndPosts, List.mem_cons, List.not_mem_nil, or_false] at ha
      rcases ha with rfl | rfl <;> constructor <;> decide⟩
  have hd : cluttered.reach "out" = .ok (.taken ["out"] .directory) := by cbv
  obtain ⟨⟨after, -, hrun, hsettled⟩, -⟩ := artifacts_settled indexAndPosts hs "out" cluttered ["out"] hd
  have hposts : admits (trim "out") (temporaryName ⟨"allPost.js", "export const allPost = [];\n"⟩) = .ok () := by
    decide +kernel
  have hfirst : obstacle "out" cluttered ["out"] ⟨"index.js", "export {};\n"⟩ = some .isDirectory := by decide +kernel
  have hsecond : obstacle "out" cluttered ["out"] ⟨"allPost.js", "export const allPost = [];\n"⟩ = none := by
    decide +kernel
  refine ⟨hs, hd, after, ?_, hsettled, ?_, hsettled.written _ (.tail _ (.head _)) hsecond,
    hsettled.cleared _ (.tail _ (.head _)) hposts⟩
  · have hpath : Path.join "out" "index.js" = "out/index.js" := by decide
    rw [hrun]
    simp only [indexAndPosts, List.findSome?_cons, hfirst, Option.map_some, hpath]
  · have hkept := hsettled.kept ⟨"index.js", "export {};\n"⟩ (.head _)
    rw [hfirst] at hkept
    exact hkept (Option.some_ne_none _)

/-! ## Names that say too little -/

/-- One file by two names, with temporary files by two other ones. -/
def sameFile : List Artifact := [⟨"a.js", "export const a = 1;\n"⟩, ⟨"./a.js", "export const a = 2;\n"⟩]

/-- The directory `out` of the root, by a path of any length. -/
def longWay (n : Nat) : String := String.ofList ('/' :: (List.replicate n '/' ++ ['o', 'u', 't']))

theorem trim_longWay (n : Nat) : trim (longWay n) = longWay n := by
  simp [trim, longWay, Path.splitFront, Path.dropIdle]

theorem reach_longWay (n : Nat) : cluttered.reach (longWay n) = .ok (.taken ["out"] .directory) := by
  have hmoves : Path.moves (Path.steps (longWay n)) = ["out"] := by
    have hsplit : (longWay n).toList = List.replicate n '/' ++ '/' :: ['o', 'u', 't'] := by
      rw [longWay, String.toList_ofList, ← List.cons_append, ← List.replicate_succ, List.replicate_succ',
        List.append_assoc]
      rfl
    have hslashes : Path.moves (Path.steps (String.ofList (List.replicate n '/'))) = [] :=
      Path.moves_slashes fun c hc => List.eq_of_mem_replicate (String.toList_ofList ▸ hc)
    rw [Path.steps_slash hsplit, Path.moves_append, hslashes]
    rfl
  have hstart : cluttered.start (longWay n) = [] := by simp [FileTree.start, Path.isAbsolute, longWay]
  have hout : cluttered.follow [] ["out"] = .ok (.taken ["out"] .directory) := by cbv
  rw [FileTree.reach, hstart, FileTree.leads_iff, ← FileTree.leads_moves, hmoves, ← FileTree.leads_iff, hout]

theorem size_longWay (n : Nat) : (longWay n).utf8ByteSize = n + 4 := by
  have hslashes : String.utf8Len (List.replicate n '/') = n := by
    induction n with
    | zero => rfl
    | succ n ih =>
      rw [List.replicate_succ, String.utf8Len_cons, ih]
      rfl
  rw [longWay, String.utf8ByteSize_ofList, String.utf8Len_cons, String.utf8Len_append, hslashes]
  rfl

theorem target_longWay (t : FileTree) {n : Nat} (hn : Path.longestPath ≤ n + 4) {name : String}
    (h : Path.IsComponent name) : t.target (Path.join (longWay n) name) = .error .nameTooLong := by
  have hjoin : Path.join (longWay n) name = longWay n ++ "/" ++ name := by
    have hlast : (longWay n).toList.getLast? = some 't' := by simp [longWay, List.getLast?_cons]
    have hrelative := Path.not_isAbsolute h.no_slash
    have hempty : (longWay n).isEmpty = false := by simp [longWay]
    simp [Path.join, hrelative, hempty, hlast]
  have hnul : '\x00' ∉ (longWay n ++ "/" ++ name).toList := by
    simp [longWay, h.no_nul]
  have hsize : Path.longestPath < (longWay n ++ "/" ++ name).utf8ByteSize := by
    have hslash : "/".utf8ByteSize = 1 := by decide
    rw [String.utf8ByteSize_append, String.utf8ByteSize_append, size_longWay, hslash]
    omega
  rw [FileTree.target, hjoin, checkPath, if_neg hnul, if_pos hsize]
  rfl

/-- Different names do not keep artifacts apart: two are written, and the content of the first one is
gone. And directories are not all that can be in the way: a path may leave no room for the name of a
file, and then a temporary file of an earlier run stays too. -/
theorem distinct_names_do_not_suffice :
    ((sameFile.flatMap fileNames).Nodup ∧ ∃ after,
      (writeArtifacts "out" sameFile : StateM FileTree _).run cluttered = (.ok ["out/a.js", "out/./a.js"], after) ∧
        after.at? ["out", "a.js"] = some (.file (.text "export const a = 2;\n"))) ∧
    cluttered.reach (longWay 4091) = .ok (.taken ["out"] .directory) ∧
      (writeArtifacts (longWay 4091) [⟨"allPost.js", ""⟩] : StateM FileTree _).run cluttered =
        (.error ⟨Path.join (longWay 4091) "allPost.js", .nameTooLong⟩, cluttered) ∧
      cluttered.at? ["out", "allPost.js.tmp"] = some (.file (.text "export const")) := by
  refine ⟨⟨by decide, _, Prod.ext ?_ rfl, ?_⟩, reach_longWay 4091, ?_, by decide +kernel⟩
  · decide +kernel
  · decide +kernel
  · have hname : Path.IsComponent "allPost.js" := ⟨by decide, by decide, by decide, by decide, by decide⟩
    have htarget : cluttered.target (temporaryPath (longWay 4091) "allPost.js") = .error .nameTooLong := by
      rw [temporaryPath_eq (longWay 4091) (a := ⟨"allPost.js", ""⟩) hname, trim_longWay]
      exact target_longWay cluttered (by decide) (temporary_isComponent (a := ⟨"allPost.js", ""⟩) hname)
    exact writeArtifacts_run (writeEach_cons (writeArtifact_of_target (longWay 4091) ⟨"allPost.js", ""⟩ cluttered htarget) rfl)

end Package

end TypedContent

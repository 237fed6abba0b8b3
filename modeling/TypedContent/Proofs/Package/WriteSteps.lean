import Mathlib.Logic.Function.Iterate
import TypedContent.Package.Write
import TypedContent.Proofs.Files.Sibling

/-!
# The steps of writing an artifact

An artifact is written in up to three operations on files: the temporary file is written, moved
to its place, and removed if one of these fails. In a directory that is there, each of them
depends only on what is seen at the two places of the artifact, and changes nothing else. So
what becomes of an artifact is a matter of its cell: its progress and these two places.
-/

namespace TypedContent

namespace Package

open FileTree (admits)
open TypedContent.Path (IsComponent trim)

def temporaryName (a : Artifact) : String := a.fileName ++ ".tmp"

theorem temporaryPath_eq (directory : String) {a : Artifact} (h : IsComponent a.fileName) :
    temporaryPath directory a.fileName = Path.join (trim directory) (temporaryName a) := by
  rw [temporaryPath, Path.fileName_join h, Path.withFileName_join h, temporaryName]

/-- How far the writing of an artifact has come. After a failure there is still the temporary
file to remove. -/
inductive Progress where
  | begun
  | written
  | failed (error : FileError)
  | done (result : Except WriteError String)

section
variable {m : Type → Type} [Monad m] [FileStore m]

/-- One operation on files. -/
def Progress.step (directory : String) (a : Artifact) : Progress → m Progress
  | .begun => do
    match ← FileStore.writeText (temporaryPath directory a.fileName) a.content with
    | .ok () => return .written
    | .error e => return .failed e
  | .written => do
    match ← FileStore.rename (temporaryPath directory a.fileName) (Path.join directory a.fileName) with
    | .ok () => return .done (.ok (Path.join directory a.fileName))
    | .error e => return .failed e
  | .failed e => do
    let _ ← FileStore.removeFile (temporaryPath directory a.fileName)
    return .done (.error ⟨Path.join directory a.fileName, e⟩)
  | .done result => return .done result

end

def advance (directory : String) (a : Artifact) (p : Progress) (t : FileTree) : Progress × FileTree :=
  (p.step directory a : StateM FileTree Progress).run t

/-- What a step comes to: the operation has given a new tree, or failed on the old one. -/
def settle (t : FileTree) (ok : Progress) (failed : FileError → Progress) :
    Except FileError FileTree → Progress × FileTree
  | .ok t' => (ok, t')
  | .error e => (failed e, t)

section
variable (directory : String) (a : Artifact) (t : FileTree)

/-- The failure of an artifact, as it is reported. -/
def failure (e : FileError) : Except WriteError String := .error ⟨Path.join directory a.fileName, e⟩

theorem advance_begun : advance directory a .begun t =
    settle t .written .failed (t.writeText (temporaryPath directory a.fileName) a.content) := by
  rw [advance, Progress.step, StateT.run_bind, FileTree.run_writeText]
  cases t.writeText (temporaryPath directory a.fileName) a.content <;> rfl

theorem advance_written : advance directory a .written t =
    settle t (.done (.ok (Path.join directory a.fileName))) .failed
      (t.rename (temporaryPath directory a.fileName) (Path.join directory a.fileName)) := by
  rw [advance, Progress.step, StateT.run_bind, FileTree.run_rename]
  cases t.rename (temporaryPath directory a.fileName) (Path.join directory a.fileName) <;> rfl

theorem advance_failed (e : FileError) : advance directory a (.failed e) t =
    settle t (.done (failure directory a e)) (fun _ => .done (failure directory a e))
      (t.removeFile (temporaryPath directory a.fileName)) := by
  rw [advance, Progress.step, StateT.run_bind, FileTree.run_removeFile]
  cases t.removeFile (temporaryPath directory a.fileName) <;> rfl

theorem advance_failed_done (e : FileError) : advance directory a (.failed e) t =
    (.done (failure directory a e), (advance directory a (.failed e) t).2) := by
  rw [advance_failed]
  cases t.removeFile (temporaryPath directory a.fileName) <;> rfl

theorem advance_done (result : Except WriteError String) :
    advance directory a (.done result) t = (.done result, t) := rfl

theorem writeArtifact_run : (writeArtifact directory a : StateM FileTree _).run t =
    match t.writeText (temporaryPath directory a.fileName) a.content with
    | .error e => (failure directory a e, (advance directory a (.failed e) t).2)
    | .ok t₁ =>
      match t₁.rename (temporaryPath directory a.fileName) (Path.join directory a.fileName) with
      | .error e => (failure directory a e, (advance directory a (.failed e) t₁).2)
      | .ok t₂ => (.ok (Path.join directory a.fileName), t₂) := by
  simp only [advance_failed, writeArtifact]
  generalize temporaryPath directory a.fileName = temporary
  have hremove : ∀ (t : FileTree) (e : FileError),
      (do let _ ← FileStore.removeFile temporary
          return failure directory a e : StateM FileTree (Except WriteError String)).run t =
        (failure directory a e, (settle t (.done (failure directory a e)) (fun _ => .done (failure directory a e))
          (t.removeFile temporary)).2) := by
    intro t e
    rw [StateT.run_bind, FileTree.run_removeFile]
    cases t.removeFile temporary <;> rfl
  rw [StateT.run_bind, FileTree.run_writeText]
  cases t.writeText temporary a.content with
  | error e => exact hremove t e
  | ok t₁ =>
    change StateT.run ((FileStore.rename _ _ : StateM FileTree _) >>= _) t₁ = _
    rw [StateT.run_bind, FileTree.run_rename]
    dsimp only
    cases t₁.rename temporary (Path.join directory a.fileName) with
    | error e => exact hremove t₁ e
    | ok t₂ => rfl

section
variable {e : FileError} (h : t.target (temporaryPath directory a.fileName) = .error e)
include h

theorem advance_begun_of_target : advance directory a .begun t = (.failed e, t) := by
  rw [advance_begun, FileTree.writeText_of_target h]
  rfl

theorem advance_failed_of_target (e' : FileError) :
    advance directory a (.failed e') t = (.done (failure directory a e'), t) := by
  rw [advance_failed, FileTree.removeFile_of_target h]
  rfl

/-- Where the path of the temporary file leads nowhere, nothing is written. -/
theorem writeArtifact_of_target : (writeArtifact directory a : StateM FileTree _).run t = (failure directory a e, t) := by
  rw [writeArtifact_run, FileTree.writeText_of_target h]
  change (failure directory a e, (advance directory a (.failed e) t).2) = _
  rw [advance_failed_of_target directory a t h]

end

/-- Writing an artifact takes its steps one after the other. -/
theorem writeArtifact_steps {result : Except WriteError String} {t' : FileTree}
    (h : (writeArtifact directory a : StateM FileTree _).run t = (result, t')) :
    ∃ p₁ t₁ p₂ t₂, advance directory a .begun t = (p₁, t₁) ∧ advance directory a p₁ t₁ = (p₂, t₂) ∧
      advance directory a p₂ t₂ = (.done result, t') := by
  rw [writeArtifact_run] at h
  have hbegun := advance_begun directory a t
  cases hwrite : t.writeText (temporaryPath directory a.fileName) a.content with
  | error e =>
    rw [hwrite] at h hbegun
    cases h
    exact ⟨_, _, _, _, hbegun, advance_failed_done directory a t e, rfl⟩
  | ok t₁ =>
    rw [hwrite] at h hbegun
    have hwritten := advance_written directory a t₁
    cases hmove : t₁.rename (temporaryPath directory a.fileName) (Path.join directory a.fileName) with
    | error e =>
      simp only [hmove] at h hwritten
      cases h
      exact ⟨_, _, _, _, hbegun, hwritten, advance_failed_done directory a t₁ e⟩
    | ok t₂ =>
      simp only [hmove] at h hwritten
      cases h
      exact ⟨_, _, _, _, hbegun, hwritten, rfl⟩

end

/-! ## Cells -/

/-- The progress of an artifact, and what is seen at the places of its temporary and its final
file. -/
structure Cell where
  progress : Progress
  temporary : Option Entry
  final : Option Entry

namespace Cell

variable (directory : String) (a : Artifact)

def write (c : Cell) : Except FileError Cell := do
  admits (trim directory) (temporaryName a)
  if c.temporary = some .directory then .error .isDirectory
  else .ok { c with temporary := some (.file (.text a.content)) }

def move (c : Cell) : Except FileError Cell := do
  admits (trim directory) (temporaryName a)
  match c.temporary with
  | none => .error .notFound
  | some .directory => .error .isDirectory
  | some (.file content) =>
    admits directory a.fileName
    if c.final = some .directory then .error .isDirectory
    else .ok { c with temporary := none, final := some (.file content) }

def remove (c : Cell) : Except FileError Cell := do
  admits (trim directory) (temporaryName a)
  match c.temporary with
  | none => .error .notFound
  | some .directory => .error .isDirectory
  | some (.file _) => .ok { c with temporary := none }

def settle (c : Cell) (ok : Progress) (failed : FileError → Progress) : Except FileError Cell → Cell
  | .ok c' => { c' with progress := ok }
  | .error e => { c with progress := failed e }

def step (c : Cell) : Cell :=
  match c.progress with
  | .begun => c.settle .written .failed (c.write directory a)
  | .written => c.settle (.done (.ok (Path.join directory a.fileName))) .failed (c.move directory a)
  | .failed e =>
    c.settle (.done (failure directory a e)) (fun _ => .done (failure directory a e)) (c.remove directory a)
  | .done _ => c

end Cell

def cell (t : FileTree) (p : Place) (a : Artifact) (progress : Progress) : Cell where
  progress := progress
  temporary := t.at? (p ++ [temporaryName a])
  final := t.at? (p ++ [a.fileName])

theorem temporary_isComponent {a : Artifact} (h : IsComponent a.fileName) : IsComponent (temporaryName a) := by
  have hlength : 4 < (temporaryName a).toList.length := by
    have hname : a.fileName.toList ≠ [] := fun e => h.nonempty (String.toList_inj.mp e)
    have := List.length_pos_iff.mpr hname
    simp [temporaryName]
    omega
  have hnot : ∀ {s : String}, s.toList.length ≤ 4 → temporaryName a ≠ s := by
    intro s hs e
    rw [e] at hlength
    omega
  refine ⟨hnot (by decide), ?_, ?_, hnot (by decide), hnot (by decide)⟩
  · simpa [temporaryName] using h.no_slash
  · simpa [temporaryName] using h.no_nul

/-- The tree has become another one, whose two places show what the cell has. Nothing else has
changed, nor have directories. -/
structure Turns (t : FileTree) (p : Place) (a : Artifact) (c : Cell) (t' : FileTree) : Prop where
  temporary : t'.at? (p ++ [temporaryName a]) = c.temporary
  final : t'.at? (p ++ [a.fileName]) = c.final
  directories : t.SameDirectories t'
  elsewhere : ∀ q, q ≠ p ++ [temporaryName a] → q ≠ p ++ [a.fileName] → t'.at? q = t.at? q

/-- An operation on the tree and one on the cell fail alike, or the tree turns as the cell does. -/
inductive Agree (t : FileTree) (p : Place) (a : Artifact) : Except FileError FileTree → Except FileError Cell → Prop
  | error (e : FileError) : Agree t p a (.error e) (.error e)
  | ok {t' : FileTree} {c : Cell} : Turns t p a c t' → Agree t p a (.ok t') (.ok c)

section
variable {t : FileTree} {p : Place} {a : Artifact}

theorem turns_refl (progress : Progress) : Turns t p a (cell t p a progress) t :=
  ⟨rfl, rfl, .refl t, fun _ _ _ => rfl⟩

theorem final_ne_temporary : p ++ [a.fileName] ≠ p ++ [temporaryName a] := by
  intro e
  have hname : a.fileName = temporaryName a := by simpa using e
  have hlength := congrArg (·.toList.length) hname
  simp [temporaryName] at hlength

theorem place_ne_nil {name : String} : p ++ [name] ≠ [] := by simp

theorem Turns.put {c : Cell} {t' : FileTree} (h : Turns t p a c t') {content : Content}
    (hc : c.temporary ≠ some .directory) :
    Turns t p a { c with temporary := some (.file content) } (t'.put (p ++ [temporaryName a]) (.file content)) where
  temporary := by rw [FileTree.at?_put place_ne_nil, if_pos rfl]
  final := by rw [FileTree.at?_put place_ne_nil, if_neg final_ne_temporary, h.final]
  directories := h.directories.trans (FileTree.sameDirectories_put place_ne_nil (h.temporary ▸ hc) content)
  elsewhere q ht hf := by rw [FileTree.at?_put place_ne_nil, if_neg ht, h.elsewhere q ht hf]

theorem Turns.putFinal {c : Cell} {t' : FileTree} (h : Turns t p a c t') {content : Content}
    (hc : c.final ≠ some .directory) :
    Turns t p a { c with final := some (.file content) } (t'.put (p ++ [a.fileName]) (.file content)) where
  temporary := by rw [FileTree.at?_put place_ne_nil, if_neg final_ne_temporary.symm, h.temporary]
  final := by rw [FileTree.at?_put place_ne_nil, if_pos rfl]
  directories := h.directories.trans (FileTree.sameDirectories_put place_ne_nil (h.final ▸ hc) content)
  elsewhere q ht hf := by rw [FileTree.at?_put place_ne_nil, if_neg hf, h.elsewhere q ht hf]

theorem Turns.erase {c : Cell} {t' : FileTree} (h : Turns t p a c t') (hc : c.temporary ≠ some .directory) :
    Turns t p a { c with temporary := none } (t'.erase (p ++ [temporaryName a])) where
  temporary := by rw [FileTree.at?_erase place_ne_nil, if_pos rfl]
  final := by rw [FileTree.at?_erase place_ne_nil, if_neg final_ne_temporary, h.final]
  directories := h.directories.trans (FileTree.sameDirectories_erase place_ne_nil (h.temporary ▸ hc))
  elsewhere q ht hf := by rw [FileTree.at?_erase place_ne_nil, if_neg ht, h.elsewhere q ht hf]

end

section
variable {t : FileTree} {directory : String} {p : Place} {a : Artifact}
  (hd : t.reach directory = .ok (.taken p .directory)) (ha : IsComponent a.fileName)
include hd ha

theorem agree_write (progress : Progress) :
    Agree t p a (t.writeText (temporaryPath directory a.fileName) a.content)
      ((cell t p a progress).write directory a) := by
  rw [temporaryPath_eq directory ha, FileTree.writeText_of_reach (FileTree.reach_trim.mpr hd) (temporary_isComponent ha),
    Cell.write]
  cases admits (trim directory) (temporaryName a) with
  | error e => exact .error e
  | ok u =>
    change Agree t p a (if t.at? (p ++ [temporaryName a]) = some .directory then _ else _)
      (if t.at? (p ++ [temporaryName a]) = some .directory then _ else _)
    by_cases h : t.at? (p ++ [temporaryName a]) = some .directory
    · rw [if_pos h, if_pos h]
      exact .error _
    · rw [if_neg h, if_neg h]
      exact .ok ((turns_refl progress).put h)

theorem agree_remove (progress : Progress) :
    Agree t p a (t.removeFile (temporaryPath directory a.fileName)) ((cell t p a progress).remove directory a) := by
  rw [temporaryPath_eq directory ha, FileTree.removeFile_of_reach (FileTree.reach_trim.mpr hd) (temporary_isComponent ha),
    Cell.remove]
  cases admits (trim directory) (temporaryName a) with
  | error e => exact .error e
  | ok u =>
    have hturns := turns_refl (t := t) (p := p) (a := a) progress
    simp only [bind, Except.bind, cell]
    cases h : t.at? (p ++ [temporaryName a]) with
    | none => exact .error _
    | some e =>
      cases e with
      | directory => exact .error _
      | file content => exact .ok (hturns.erase (by simp [cell, h]))

theorem agree_move (progress : Progress) :
    Agree t p a (t.rename (temporaryPath directory a.fileName) (Path.join directory a.fileName))
      ((cell t p a progress).move directory a) := by
  rw [temporaryPath_eq directory ha,
    FileTree.rename_of_reach (FileTree.reach_trim.mpr hd) (temporary_isComponent ha) hd ha, Cell.move]
  cases admits (trim directory) (temporaryName a) with
  | error e => exact .error e
  | ok u =>
    have hturns := turns_refl (t := t) (p := p) (a := a) progress
    simp only [bind, Except.bind, cell]
    cases h : t.at? (p ++ [temporaryName a]) with
    | none => exact .error _
    | some e =>
      cases e with
      | directory => exact .error _
      | file content =>
        simp only
        cases admits directory a.fileName with
        | error e => exact .error e
        | ok u =>
          by_cases hf : t.at? (p ++ [a.fileName]) = some .directory
          · simp only [hf, if_true]
            exact .error _
          · simp only [hf, if_false]
            exact .ok ((hturns.erase (by simp [cell, h])).putFinal hf)

omit hd ha in
theorem settle_cell (progress ok : Progress) (failed : FileError → Progress) {x : Except FileError FileTree}
    {y : Except FileError Cell} (h : Agree t p a x y) :
    ((cell t p a progress).settle ok failed y).progress = (settle t ok failed x).1 ∧
      Turns t p a ((cell t p a progress).settle ok failed y) (settle t ok failed x).2 := by
  cases h with
  | error e => exact ⟨rfl, turns_refl _⟩
  | ok h => exact ⟨rfl, h.temporary, h.final, h.directories, h.elsewhere⟩

/-- A step on the tree is a step of the cell. -/
theorem advance_cell (progress : Progress) :
    ((cell t p a progress).step directory a).progress = (advance directory a progress t).1 ∧
      Turns t p a ((cell t p a progress).step directory a) (advance directory a progress t).2 := by
  cases progress with
  | begun =>
    rw [advance_begun]
    exact settle_cell _ _ _ (agree_write hd ha .begun)
  | written =>
    rw [advance_written]
    exact settle_cell _ _ _ (agree_move hd ha .written)
  | failed e =>
    rw [advance_failed]
    exact settle_cell _ _ _ (agree_remove hd ha (.failed e))
  | done result => exact ⟨rfl, turns_refl _⟩

end

/-! ## The end of a cell -/

namespace Cell

variable (directory : String) (a : Artifact)

/-- What three steps make of a cell. It is known from the start: the names must be admitted, and
a directory in the place of either file is in the way. -/
def outcome (temporary final : Option Entry) : Cell :=
  match admits (trim directory) (temporaryName a), admits directory a.fileName with
  | .error e, _ => ⟨.done (failure directory a e), temporary, final⟩
  | .ok (), admitted =>
    if temporary = some .directory then ⟨.done (failure directory a .isDirectory), temporary, final⟩
    else
      match admitted with
      | .error e => ⟨.done (failure directory a e), none, final⟩
      | .ok () =>
        if final = some .directory then ⟨.done (failure directory a .isDirectory), none, final⟩
        else ⟨.done (.ok (Path.join directory a.fileName)), none, some (.file (.text a.content))⟩

theorem step_three (temporary final : Option Entry) :
    (step directory a)^[3] ⟨.begun, temporary, final⟩ = outcome directory a temporary final := by
  simp only [Function.iterate_succ, Function.iterate_zero, Function.comp_apply, id]
  cases ht : admits (trim directory) (temporaryName a) with
  | error e => simp [step, write, settle, remove, outcome, ht, bind, Except.bind]
  | ok u =>
    by_cases hdirectory : temporary = some .directory
    · simp [step, write, settle, remove, outcome, ht, hdirectory, bind, Except.bind]
    · cases hf : admits directory a.fileName with
      | error e => simp [step, write, move, settle, remove, outcome, ht, hf, hdirectory, bind, Except.bind]
      | ok u =>
        by_cases hfinal : final = some .directory
        · simp [step, write, move, settle, remove, outcome, ht, hf, hdirectory, hfinal, bind, Except.bind]
        · simp [step, write, move, settle, outcome, ht, hf, hdirectory, hfinal, bind, Except.bind]

theorem outcome_done (temporary final : Option Entry) :
    ∃ result, (outcome directory a temporary final).progress = .done result := by
  unfold outcome
  repeat' split
  all_goals exact ⟨_, rfl⟩

theorem step_of_done {c : Cell} {result : Except WriteError String} (h : c.progress = .done result) :
    c.step directory a = c := by
  rw [step, h]

/-- However many steps it takes to be done, the outcome is that of three. -/
theorem iterate_of_done {k : Nat} {temporary final : Option Entry} {result : Except WriteError String}
    (h : ((step directory a)^[k] ⟨.begun, temporary, final⟩).progress = .done result) :
    (step directory a)^[k] ⟨.begun, temporary, final⟩ = outcome directory a temporary final := by
  have hstay : (step directory a)^[3] ((step directory a)^[k] ⟨.begun, temporary, final⟩) =
      (step directory a)^[k] ⟨.begun, temporary, final⟩ := Function.iterate_fixed (step_of_done directory a h) 3
  obtain ⟨other, hother⟩ := outcome_done directory a temporary final
  calc (step directory a)^[k] ⟨.begun, temporary, final⟩
      = (step directory a)^[3] ((step directory a)^[k] ⟨.begun, temporary, final⟩) := hstay.symm
    _ = (step directory a)^[k] ((step directory a)^[3] ⟨.begun, temporary, final⟩) :=
      Function.Commute.iterate_iterate_self (step directory a) 3 k _
    _ = outcome directory a temporary final := by
      rw [step_three]
      exact Function.iterate_fixed (step_of_done directory a hother) k

/-- Written again, an artifact fares the same and leaves the same. -/
theorem outcome_again (temporary final : Option Entry) :
    outcome directory a (outcome directory a temporary final).temporary (outcome directory a temporary final).final =
      outcome directory a temporary final := by
  unfold outcome
  cases admits (trim directory) (temporaryName a) with
  | error e => rfl
  | ok u =>
    by_cases ht : temporary = some .directory
    · simp [ht]
    · cases admits directory a.fileName with
      | error e => simp [ht]
      | ok u => by_cases hf : final = some .directory <;> simp [ht, hf]

end Cell

end Package

end TypedContent

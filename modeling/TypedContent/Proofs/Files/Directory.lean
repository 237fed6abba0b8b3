import Mathlib.Data.List.TakeWhile
import TypedContent.Proofs.Files.Tree

/-!
# Making a directory

What `makeDirectory` does to a tree: directories on the way come where nothing was, and all else
stays as it is. Made again, a directory is simply there; after a failure nothing more is made, but
the failure may be another one.
-/

namespace TypedContent

namespace Path

/-- The steps that go somewhere. -/
def moves (steps : List String) : List String := steps.filter (· ≠ ".")

theorem moves_append (xs ys : List String) : moves (xs ++ ys) = moves xs ++ moves ys := List.filter_append ..

theorem moves_cons_dot (steps : List String) : moves ("." :: steps) = moves steps := List.filter_cons_of_neg (by simp)

theorem moves_cons {step : String} (h : step ≠ ".") (steps : List String) : moves (step :: steps) = step :: moves steps :=
  List.filter_cons_of_pos (by simpa using h)

theorem splitSlashes_of_slashes : ∀ {cs : List Char}, (∀ c ∈ cs, c = '/') → ∀ piece ∈ splitSlashes cs, piece = []
  | [], _ => by simp [splitSlashes]
  | c :: rest, h => by
    rw [List.forall_mem_cons] at h
    rw [splitSlashes, if_pos h.1, List.forall_mem_cons]
    exact ⟨rfl, splitSlashes_of_slashes h.2⟩

theorem moves_slashes {path : String} (h : ∀ c ∈ path.toList, c = '/') : moves (steps path) = [] := by
  unfold moves steps
  rw [List.filter_eq_nil_iff]
  intro step hstep
  obtain ⟨piece, hpiece, rfl⟩ := List.mem_map.mp hstep
  simp [splitSlashes_of_slashes h piece hpiece]

theorem dropTrailingSlashes_append (path : String) : ∃ slashes : List Char, (∀ c ∈ slashes, c = '/') ∧
    path.toList = (dropTrailingSlashes path).toList ++ slashes := by
  refine ⟨(path.toList.reverse.takeWhile (· = '/')).reverse, fun c hc => ?_, ?_⟩
  · simpa using List.mem_takeWhile_imp (List.mem_reverse.mp hc)
  · rw [dropTrailingSlashes, String.toList_ofList, ← List.reverse_append, List.takeWhile_append_dropWhile,
      List.reverse_reverse]

theorem steps_dropTrailingSlashes (path : String) : steps (dropTrailingSlashes path) <+: steps path ∧
    moves (steps (dropTrailingSlashes path)) = moves (steps path) := by
  obtain ⟨slashes, hslashes, e⟩ := dropTrailingSlashes_append path
  cases slashes with
  | nil =>
    rw [List.append_nil] at e
    rw [← String.toList_inj.mp e]
    exact ⟨List.prefix_refl _, rfl⟩
  | cons c rest =>
    rw [List.forall_mem_cons] at hslashes
    rw [hslashes.1] at e
    have hsteps := steps_slash e
    rw [String.ofList_toList] at hsteps
    have hrest : moves (steps (String.ofList rest)) = [] := moves_slashes (by simpa using hslashes.2)
    rw [hsteps, moves_append, hrest, List.append_nil]
    exact ⟨List.prefix_append _ _, rfl⟩

theorem steps_ne_nil (path : String) : steps path ≠ [] := by
  unfold steps
  simpa using splitSlashes_ne_nil path.toList

theorem parts_cases (path : String) : parts path = moves (steps path) ∨
    ∃ first rest, steps path = first :: rest ∧ parts path = first :: moves rest := by
  unfold parts
  split
  · next heq => exact .inr ⟨_, _, heq, rfl⟩
  · exact .inl rfl

theorem mem_parts {path step : String} (h : step ∈ parts path) : step ∈ steps path := by
  rcases parts_cases path with hp | ⟨first, rest, hsteps, hp⟩
  · rw [hp] at h
    exact (List.mem_filter.mp h).1
  · rw [hp] at h
    rw [hsteps]
    exact (List.mem_cons.mp h).elim (fun e => e ▸ List.mem_cons_self) fun h =>
      List.mem_cons_of_mem _ ((List.mem_filter.mp h).1)

theorem moves_parts (path : String) : moves (parts path) = moves (steps path) := by
  have hmoves : ∀ steps, moves (moves steps) = moves steps := fun steps => by simp [moves]
  rcases parts_cases path with h | h
  · rw [h, hmoves]
  · obtain ⟨first, rest, hsteps, hparts⟩ := h
    rw [hsteps, hparts]
    by_cases hfirst : first = "."
    · rw [hfirst, moves_cons_dot, moves_cons_dot, hmoves]
    · rw [moves_cons hfirst, moves_cons hfirst, hmoves]

/-- Where the last move of the steps is made. -/
theorem exists_front {steps xs : List String} {x : String} (hx : x ≠ ".") (h : moves steps = moves (xs ++ [x])) :
    ∃ front rest, steps = front ++ rest ∧ rest ≠ [] ∧ moves front = moves xs := by
  rw [moves_append, moves_cons hx] at h
  obtain ⟨front, rest, rfl, hfront, hrest⟩ := List.filter_eq_append_iff.mp h
  refine ⟨front, rest, rfl, ?_, hfront⟩
  rintro rfl
  cases hrest

/-- The part before which others stand is no step to the place itself. -/
theorem parts_last {path x : String} {xs : List String} (h : parts path = xs ++ [x]) (hxs : xs ≠ []) : x ≠ "." := by
  have hmoves : ∀ steps, x ∈ moves steps → x ≠ "." := fun steps hx => by simpa using (List.mem_filter.mp hx).2
  rcases parts_cases path with hp | hp
  · refine hmoves (steps path) ?_
    rw [← hp, h]
    simp
  · obtain ⟨first, rest, -, hp⟩ := hp
    obtain ⟨y, ys, rfl⟩ := List.exists_cons_of_ne_nil hxs
    rw [h, List.cons_append, List.cons.injEq] at hp
    refine hmoves rest ?_
    rw [← hp.2]
    simp

/-- Some of the first parts make the moves of some of the first steps. -/
theorem exists_prefix {path : String} {way : List String} (h : way <+: parts path) :
    ∃ front, front <+: steps path ∧ moves front = moves way := by
  obtain ⟨others, e⟩ := h
  have hmoves : moves (steps path) = moves way ++ moves others := by rw [← moves_parts, ← e, moves_append]
  obtain ⟨front, rest, e, hfront, -⟩ := List.filter_eq_append_iff.mp hmoves
  exact ⟨front, e ▸ List.prefix_append _ _, hfront⟩

end Path

namespace FileTree

/-! ## Moves -/

section
variable {t t' : FileTree} {p q : Place} {steps : List String}

theorem follow_moves {ys : List String} (hy : ys ≠ []) (xs : List String) :
    t.follow p (xs ++ ys) = t.follow p (Path.moves xs ++ ys) := by
  induction xs generalizing p with
  | nil => rfl
  | cons x xs ih =>
    by_cases hdot : x = "."
    · subst hdot
      obtain ⟨step, rest, e⟩ := List.exists_cons_of_ne_nil (show xs ++ ys ≠ [] by simp [hy])
      rw [Path.moves_cons_dot, ← ih, List.cons_append, e, follow_dot_cons]
    rw [Path.moves_cons hdot, List.cons_append, List.cons_append]
    cases hp : t.at? p with
    | none => rw [follow_none hp, follow_none hp]
    | some e =>
      cases e with
      | file c => rw [follow_file hp, follow_file hp]
      | directory =>
        by_cases hdots : x = ".."
        · rw [hdots, follow_dots hp, follow_dots hp, ih]
        · have hne : ∀ zs, zs ++ ys ≠ [] := fun zs => by simp [hy]
          rw [follow_down hp hdot hdots, follow_down hp hdot hdots, if_neg (hne xs), if_neg (hne _), ih]

theorem leads_concat_dot : t.Leads p (steps ++ ["."]) q ↔ t.Leads p steps q := by
  rw [← leads_iff, ← leads_iff, follow_append (by simp)]
  constructor
  · intro h
    obtain ⟨target, htarget, hlast⟩ := bind_eq_ok.mp h
    cases target with
    | free r => cases hlast
    | taken r e =>
      have hr : t.at? r = some .directory := (leads_of_follow hlast).source
      have he : t.at? r = some e := (finds_of_follow htarget).seen
      rw [onward, follow_dot hr, follow_nil hr] at hlast
      cases hlast
      rw [hr] at he
      cases he
      exact htarget
  · intro h
    have hq : t.at? q = some .directory := (leads_of_follow h).target
    rw [h]
    change t.follow q ["."] = _
    rw [follow_dot hq, follow_nil hq]

/-- Whether steps lead to a directory depends on the moves alone. -/
theorem leads_moves : t.Leads p (Path.moves steps) q ↔ t.Leads p steps q := by
  have hfollow : t.Leads p (Path.moves steps ++ ["."]) q ↔ t.Leads p (steps ++ ["."]) q := by
    rw [← leads_iff, ← leads_iff, ← follow_moves (by simp)]
  exact leads_concat_dot.symm.trans (hfollow.trans leads_concat_dot)

end

/-- The steps go on from where the way leads. -/
def Extends (steps way : List String) : Prop :=
  ∃ rest, rest ≠ [] ∧ ∀ (t : FileTree) (p : Place), t.follow p steps = t.follow p (way ++ rest)

theorem extends_parts {path x : String} {back : List String} (h : (Path.parts path).reverse = x :: back) :
    Extends (Path.steps (Path.dropTrailingSlashes path)) back.reverse := by
  have hparts : Path.parts path = back.reverse ++ [x] := by rw [← List.reverse_cons, ← h, List.reverse_reverse]
  by_cases hback : back = []
  · subst hback
    exact ⟨_, Path.steps_ne_nil _, fun _ _ => by rw [List.reverse_nil, List.nil_append]⟩
  · have hmoves : Path.moves (Path.steps (Path.dropTrailingSlashes path)) = Path.moves (back.reverse ++ [x]) := by
      rw [(Path.steps_dropTrailingSlashes path).2, ← Path.moves_parts, hparts]
    obtain ⟨front, rest, e, hrest, hfront⟩ := Path.exists_front (Path.parts_last hparts (by simpa using hback)) hmoves
    refine ⟨rest, hrest, fun t p => ?_⟩
    rw [e, follow_moves hrest, hfront, ← follow_moves hrest]

theorem extends_reverse (x : String) (back : List String) : Extends (x :: back).reverse back.reverse := by
  rw [List.reverse_cons]
  exact ⟨[x], List.cons_ne_nil _ _, fun _ _ => rfl⟩

/-! ## New directories -/

section
variable {t t' t'' : FileTree} {p q : Place} {steps : List String}

theorem follow_free (h : t.follow p steps = .ok (.free q)) : q ≠ [] ∧ t.at? q = none := by
  have hq : t.at? q = none := (finds_of_follow h).seen
  refine ⟨?_, hq⟩
  rintro rfl
  cases hq

/-- What is made where the steps lead can be reached by them. -/
theorem leads_put (h : t.follow p steps = .ok (.free q)) : (t.put q .directory).Leads p steps q := by
  obtain ⟨hne, hq⟩ := follow_free h
  refine (finds_of_follow h).leads (fun r hr => ?_) ?_
  · rw [at?_put hne]
    split
    · rfl
    · exact hr
  · exact (at?_put hne q).trans (if_pos rfl)

/-- Only directories have come, each where nothing was and where one of the ways leads. -/
structure Made (origin : Place) (ways : List String → Prop) (t t' : FileTree) : Prop where
  working : t.working = t'.working
  at? : ∀ q, t'.at? q = t.at? q ∨
    t.at? q = none ∧ t'.at? q = some .directory ∧ ∃ steps, ways steps ∧ t'.Leads origin steps q

section
variable {origin : Place} {ways more : List String → Prop}

theorem Made.refl (t : FileTree) : Made origin ways t t := ⟨rfl, fun _ => .inl rfl⟩

theorem Made.directory (h : Made origin ways t t') (hq : t.at? q = some .directory) : t'.at? q = some .directory := by
  rcases h.at? q with e | ⟨hnone, -⟩
  · rw [e, hq]
  · rw [hq] at hnone
    cases hnone

theorem Made.trans (h : Made origin ways t t') (h' : Made origin ways t' t'') : Made origin ways t t'' := by
  refine ⟨h.working.trans h'.working, fun q => ?_⟩
  rcases h'.at? q with e' | ⟨hnone', hdirectory', hway'⟩
  · rcases h.at? q with e | ⟨hnone, hdirectory, steps, hsteps, hleads⟩
    · exact .inl (e'.trans e)
    · exact .inr ⟨hnone, e'.trans hdirectory, steps, hsteps, hleads.mono fun _ => h'.directory⟩
  · rcases h.at? q with e | ⟨-, hdirectory, -⟩
    · exact .inr ⟨e ▸ hnone', hdirectory', hway'⟩
    · rw [hnone'] at hdirectory
      cases hdirectory

theorem Made.file (h : Made origin ways t t') (q : Place) (c : Content) :
    t'.at? q = some (.file c) ↔ t.at? q = some (.file c) := by
  rcases h.at? q with e | ⟨hnone, hdirectory, -⟩
  · rw [e]
  · simp [hnone, hdirectory]

theorem made_put (h : t.follow origin steps = .ok (.free q)) (hway : ways steps) :
    Made origin ways t (t.put q .directory) := by
  obtain ⟨hne, hq⟩ := follow_free h
  refine ⟨rfl, fun r => ?_⟩
  rw [at?_put hne]
  by_cases hr : r = q
  · subst hr
    rw [if_pos rfl]
    exact .inr ⟨hq, rfl, steps, hway, leads_put h⟩
  · rw [if_neg hr]
    exact .inl rfl

end

end

/-! ## Making all directories of a path -/

section
variable {t t' : FileTree} {origin : Place} {steps : List String} {x : String} {back : List String}

/-- What is left to do when the directory before the last part is there. -/
def finish (t : FileTree) (origin : Place) (steps : List String) : FileTree × Except FileError Unit :=
  match t.makeOne origin steps with
  | .ok t => (t, .ok ())
  | .error e => if t.isDirectory origin steps then (t, .ok ()) else (t, .error e)

theorem makeAll_nil : t.makeAll origin [] steps = (t, .ok ()) := rfl

theorem makeAll_cons (h : t.makeOne origin steps ≠ .error .notFound) :
    t.makeAll origin (x :: back) steps = t.finish origin steps := by
  unfold makeAll finish
  split
  · next heq => exact absurd heq h
  · rfl

theorem makeAll_missing (h : t.makeOne origin steps = .error .notFound)
    (hback : t.makeAll origin back back.reverse = (t', .ok ())) :
    t.makeAll origin (x :: back) steps = t'.finish origin steps := by
  unfold makeAll
  rw [h, hback]
  rfl

theorem makeAll_stopped (h : t.makeOne origin steps = .error .notFound) {e : FileError}
    (hback : t.makeAll origin back back.reverse = (t', .error e)) :
    t.makeAll origin (x :: back) steps = (t', .error e) := by
  unfold makeAll
  rw [h, hback]

theorem isDirectory_iff : t.isDirectory origin steps = true ↔ ∃ q, t.Leads origin steps q := by
  unfold isDirectory
  constructor
  · intro h
    split at h
    · next q heq => exact ⟨q, leads_of_follow heq⟩
    · cases h
  · intro h
    obtain ⟨q, hq⟩ := h
    rw [follow_of_leads hq]

/-- The three ways to finish. -/
theorem finish_cases (t : FileTree) (origin : Place) (steps : List String) :
    (∃ q, t.follow origin steps = .ok (.free q) ∧ t.finish origin steps = (t.put q .directory, .ok ())) ∨
      (∃ q, t.Leads origin steps q ∧ t.finish origin steps = (t, .ok ())) ∨
      ∃ e, t.makeOne origin steps = .error e ∧ (∀ q, ¬t.Leads origin steps q) ∧
        t.finish origin steps = (t, .error e) := by
  unfold finish
  cases hmake : t.makeOne origin steps with
  | ok made =>
    rw [makeOne, bind_eq_ok] at hmake
    obtain ⟨target, hfollow, hmade⟩ := hmake
    cases target with
    | taken q e => cases hmade
    | free q =>
      cases hmade
      exact .inl ⟨q, hfollow, rfl⟩
  | error e =>
    by_cases h : ∃ q, t.Leads origin steps q
    · obtain ⟨q, hq⟩ := h
      exact .inr (.inl ⟨q, hq, if_pos (isDirectory_iff.mpr ⟨q, hq⟩)⟩)
    · exact .inr (.inr ⟨e, rfl, fun q hq => h ⟨q, hq⟩, if_neg (mt isDirectory_iff.mp h)⟩)

theorem finish_made {ways : List String → Prop} (hway : ways steps) : Made origin ways t (t.finish origin steps).1 := by
  rcases finish_cases t origin steps with ⟨q, hq, h⟩ | ⟨q, -, h⟩ | ⟨e, -, -, h⟩ <;> rw [h]
  · exact made_put hq hway
  · exact .refl t
  · exact .refl t

/-- Directories come at most along the way: where the steps lead, or where some of the parts do. -/
theorem makeAll_made {ways : List String → Prop} (back : List String) (steps : List String)
    (hsteps : ways steps) (hback : ∀ way, way <+: back.reverse → ways way) :
    Made origin ways t (t.makeAll origin back steps).1 := by
  induction back generalizing steps with
  | nil => exact .refl t
  | cons x back ih =>
    by_cases h : t.makeOne origin steps = .error .notFound
    · have hbefore : back.reverse <+: (x :: back).reverse := by simp
      have ih := ih back.reverse (hback _ hbefore) fun way hway => hback _ (hway.trans hbefore)
      rcases hrun : t.makeAll origin back back.reverse with ⟨t', r⟩
      rw [hrun] at ih
      cases r with
      | error e =>
        rw [makeAll_stopped h hrun]
        exact ih
      | ok =>
        rw [makeAll_missing h hrun]
        exact ih.trans (finish_made hsteps)
    · rw [makeAll_cons h]
      exact finish_made hsteps

end

/-- A directory is made on the way that the steps of its path take, and no other. -/
theorem makeDirectory_made (t : FileTree) (path : String) :
    Made (t.start path) (· <+: Path.steps path) t (t.makeDirectory path).1 := by
  unfold makeDirectory
  cases checkPath path with
  | error e => exact .refl t
  | ok =>
    have hmade : Made (t.start path) (fun way => ∃ steps, steps <+: Path.steps path ∧ Path.moves steps = Path.moves way) t
        (t.makeAll (t.start path) (Path.parts path).reverse (Path.steps (Path.dropTrailingSlashes path))).1 := by
      refine makeAll_made _ _ ⟨_, (Path.steps_dropTrailingSlashes path).1, rfl⟩ fun way hway => ?_
      rw [List.reverse_reverse] at hway
      exact Path.exists_prefix hway
    refine ⟨hmade.working, fun q => (hmade.at? q).imp_right fun hnew => ?_⟩
    obtain ⟨hnone, hdirectory, way, hway, hleads⟩ := hnew
    obtain ⟨steps, hbefore, hmoves⟩ := hway
    rw [← leads_moves, ← hmoves, leads_moves] at hleads
    exact ⟨hnone, hdirectory, steps, hbefore, hleads⟩

end FileTree

end TypedContent

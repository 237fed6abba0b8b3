import Mathlib.Data.List.Induction
import TypedContent.Proofs.Files.Directory

/-!
# Making a directory again

A directory that was made is there when it is made again. Where the first attempt failed, the
second one fails on the same tree, and it fails alike with one exception: a file found on the way
ends the first attempt as something that already exists, and the second one, which follows the
whole path at once, as something that is no directory. For that the way has to leave a directory
that was not there before, by `..`.
-/

namespace TypedContent

namespace FileTree

/-! ## Files behind directories -/

/-- Whatever is there is in a directory. -/
def Sound (t : FileTree) : Prop := ∀ p name, t.at? (p ++ [name]) ≠ none → t.at? p = some .directory

section
variable {t t' : FileTree} {origin p q : Place} {steps : List String} {ways : List String → Prop}

theorem sound_of_entries (h : ∀ entry ∈ t.entries, t.at? entry.1.dropLast = some .directory) : t.Sound := by
  intro p name hp
  unfold at? at hp
  rw [if_neg (by simp)] at hp
  cases hfind : t.entries.find? (·.1 = p ++ [name]) with
  | none => simp [hfind] at hp
  | some entry =>
    have hplace : entry.1 = p ++ [name] := by simpa using List.find?_some hfind
    have hparent := h entry (List.mem_of_find?_eq_some hfind)
    rwa [hplace, List.dropLast_concat] at hparent

theorem Sound.above (h : t.Sound) (hbefore : p <+: q) (hne : p ≠ q) (hq : t.at? q ≠ none) :
    t.at? p = some .directory := by
  obtain ⟨rest, rfl⟩ := hbefore
  induction rest using List.reverseRecOn with
  | nil => exact absurd (List.append_nil p).symm hne
  | append_singleton rest x ih =>
    have hparent : t.at? (p ++ rest) = some .directory := by
      rw [← List.append_assoc] at hq
      exact h _ _ hq
    by_cases hrest : rest = []
    · rwa [hrest, List.append_nil] at hparent
    · exact ih (by simpa using hrest) (by simp [hparent])

theorem Finds.goesDown {target : Target} (h : t.Finds p steps target) (hdots : ".." ∉ steps) : p <+: target.place := by
  induction h with
  | here => exact List.prefix_refl _
  | dot _ _ ih => exact ih fun hmem => hdots (List.mem_cons_of_mem _ hmem)
  | dots => exact absurd List.mem_cons_self hdots
  | last =>
    rw [place_lookAt]
    exact List.prefix_append _ _
  | down _ _ _ _ _ _ ih =>
    exact (List.prefix_append _ _).trans (ih fun hmem => hdots (List.mem_cons_of_mem _ hmem))

/-- Before the directories were made, the steps led to the file too, or to nothing. -/
theorem Made.follow_file_or (hmade : Made origin ways t t') {c : Content}
    (h : t'.follow p steps = .ok (.taken q (.file c))) :
    t.follow p steps = .ok (.taken q (.file c)) ∨ t.follow p steps = .error .notFound := by
  have hq : t.at? q = some (.file c) := (hmade.file q c).mp (finds_of_follow h).seen
  have hdirectory : ∀ {p : Place}, t'.at? p = some .directory → t.at? p = some .directory ∨ t.at? p = none := by
    intro p hp
    rcases hmade.at? p with e | ⟨hnone, -⟩
    · exact .inl (e ▸ hp)
    · exact .inr hnone
  generalize htarget : Target.taken q (.file c) = target at h
  have hfinds := finds_of_follow h
  clear h
  induction hfinds with
  | here =>
    cases htarget
    exact .inl (follow_nil hq)
  | @dot p rest _ hp _ ih =>
    rcases hdirectory hp with hp | hp
    · rw [follow_dot hp]
      exact ih htarget
    · exact .inr (follow_none hp _)
  | @dots p rest _ hp _ ih =>
    rcases hdirectory hp with hp | hp
    · rw [follow_dots hp]
      exact ih htarget
    · exact .inr (follow_none hp _)
  | @last p step hp hdot hname hsize =>
    rcases hdirectory hp with hp | hp
    · obtain rfl : q = p ++ [step] := by
        rw [← place_lookAt t' (p ++ [step]), ← htarget]
        rfl
      rw [follow_down hp hdot hname, if_neg hsize, if_pos rfl, ← htarget, lookAt, hq]
      exact .inl rfl
    · exact .inr (follow_none hp _)
  | @down p step rest _ hp hdot hname hsize hne _ ih =>
    rcases hdirectory hp with hp | hp
    · rw [follow_down hp hdot hname, if_neg hsize, if_neg hne]
      exact ih htarget
    · exact .inr (follow_none hp _)

/-- New directories do not help to find a file, if no step goes up. -/
theorem Made.follow_file (hmade : Made origin ways t t') (hs : t.Sound) (hdots : ".." ∉ steps) {c : Content}
    (h : t'.follow p steps = .ok (.taken q (.file c))) : t.follow p steps = .ok (.taken q (.file c)) := by
  have hfile : t'.at? q = some (.file c) := (finds_of_follow h).seen
  have hq : t.at? q = some (.file c) := (hmade.file q c).mp hfile
  -- as no step goes up, every directory on the way is above the file, and so it was there before
  have hdirectory : ∀ {p : Place}, p <+: q → t'.at? p = some .directory → t.at? p = some .directory := by
    intro p hbefore hp
    refine hs.above hbefore (fun e => ?_) (by simp [hq])
    rw [e, hfile] at hp
    cases hp
  generalize htarget : Target.taken q (.file c) = target at h
  have hfinds := finds_of_follow h
  clear h
  induction hfinds with
  | here =>
    cases htarget
    exact follow_nil hq
  | dot hp hrest ih =>
    have hdots := fun hmem => hdots (List.mem_cons_of_mem _ hmem)
    have hbefore := hrest.goesDown hdots
    rw [← htarget] at hbefore
    rw [follow_dot (hdirectory hbefore hp)]
    exact ih hdots htarget
  | dots => exact absurd List.mem_cons_self hdots
  | @last p step hp hdot hname hsize =>
    obtain rfl : q = p ++ [step] := by
      rw [← place_lookAt t' (p ++ [step]), ← htarget]
      rfl
    rw [follow_down (hdirectory (List.prefix_append _ _) hp) hdot hname, if_neg hsize, if_pos rfl, ← htarget, lookAt, hq]
  | @down p step rest _ hp hdot hname hsize hne hrest ih =>
    have hdots := fun hmem => hdots (List.mem_cons_of_mem _ hmem)
    have hbefore := hrest.goesDown hdots
    rw [← htarget] at hbefore
    rw [follow_down (hdirectory ((List.prefix_append _ _).trans hbefore) hp) hdot hname, if_neg hsize, if_neg hne]
    exact ih hdots htarget

end

/-! ## All directories of a path again -/

section
variable {t t' : FileTree} {origin q : Place} {steps way rest back : List String} {x : String} {e : FileError}

theorem makeAll_leads (h : t.Leads origin steps q) : t.makeAll origin back steps = (t, .ok ()) := by
  have hfollow := follow_of_leads h
  have hmake : t.makeOne origin steps = .error .alreadyExists := by
    rw [makeOne, hfollow]
    rfl
  cases back with
  | nil => rfl
  | cons x back =>
    rw [makeAll_cons (by simp [hmake]), finish, hmake]
    exact if_pos (isDirectory_iff.mpr ⟨q, h⟩)

theorem finish_ok (h : t.finish origin steps = (t', .ok ())) : ∃ q, t'.Leads origin steps q := by
  rcases finish_cases t origin steps with ⟨q, hq, hfinish⟩ | ⟨q, hq, hfinish⟩ | ⟨e, -, -, hfinish⟩ <;>
    rw [hfinish] at h <;> cases h
  · exact ⟨q, leads_put hq⟩
  · exact ⟨q, hq⟩

theorem finish_error (h : t.finish origin steps = (t', .error e)) :
    t' = t ∧ t.makeOne origin steps = .error e ∧ ∀ q, ¬t.Leads origin steps q := by
  rcases finish_cases t origin steps with ⟨q, -, hfinish⟩ | ⟨q, -, hfinish⟩ | ⟨e, hmake, hnot, hfinish⟩ <;>
    rw [hfinish] at h <;> cases h
  exact ⟨rfl, hmake, hnot⟩

theorem finish_of_error (hmake : t.makeOne origin steps = .error e) (hnot : ∀ q, ¬t.Leads origin steps q) :
    t.finish origin steps = (t, .error e) := by
  rw [finish, hmake]
  refine if_neg fun h => ?_
  obtain ⟨q, hq⟩ := isDirectory_iff.mp h
  exact hnot q hq

theorem makeAll_ok (h : t.makeAll origin back steps = (t', .ok ())) : back = [] ∨ ∃ q, t'.Leads origin steps q := by
  cases back with
  | nil => exact .inl rfl
  | cons x back =>
    by_cases hmake : t.makeOne origin steps = .error .notFound
    · rcases hrun : t.makeAll origin back back.reverse with ⟨between, _ | _⟩
      · rw [makeAll_stopped hmake hrun] at h
        cases h
      · rw [makeAll_missing hmake hrun] at h
        exact .inr (finish_ok h)
    · rw [makeAll_cons hmake] at h
      exact .inr (finish_ok h)

theorem makeAll_ok_again (h : t.makeAll origin back steps = (t', .ok ())) :
    t'.makeAll origin back steps = (t', .ok ()) := by
  rcases makeAll_ok h with rfl | ⟨q, hq⟩
  · rfl
  · exact makeAll_leads hq

/-- Past the end of a way that cannot be made, things fail as there, or at the file that is there. -/
theorem follow_beyond (hmake : t.makeOne origin way = .error e) (hnot : ∀ q, ¬t.Leads origin way q) (hrest : rest ≠ []) :
    t.follow origin (way ++ rest) = .error e ∨
      e = .alreadyExists ∧ (∃ q c, t.follow origin way = .ok (.taken q (.file c))) ∧
        t.follow origin (way ++ rest) = .error .notDirectory := by
  rw [follow_append hrest]
  rw [makeOne] at hmake
  cases hfollow : t.follow origin way with
  | error e' =>
    rw [hfollow] at hmake
    cases hmake
    exact .inl rfl
  | ok target =>
    rw [hfollow] at hmake
    cases target with
    | free q => cases hmake
    | taken q entry =>
      cases hmake
      cases entry with
      | directory => exact absurd (leads_of_follow hfollow) (hnot q)
      | file c =>
        obtain ⟨step, rest, rfl⟩ := List.exists_cons_of_ne_nil hrest
        have hq : t.at? q = some (.file c) := (finds_of_follow hfollow).seen
        exact .inr ⟨rfl, ⟨q, c, rfl⟩, FileTree.follow_file hq step rest⟩

/-- How a second attempt fails, on the tree that the first one left. -/
structure FailsAgain (t t' : FileTree) (origin : Place) (back steps : List String) (e e' : FileError) : Prop where
  unreached : ∀ q, ¬t'.Leads origin steps q
  last : t'.makeOne origin steps = .error e'
  run : t'.makeAll origin back steps = (t', .error e')
  error : e' = e ∨ e = .alreadyExists ∧ e' = .notDirectory
  same : t.Sound → ".." ∉ back → e' = e

theorem makeAll_stays (hmake : t.makeOne origin steps = .error e) (hnot : ∀ q, ¬t.Leads origin steps q)
    (hback : e = .notFound → t.makeAll origin back back.reverse = (t, .ok ()) ∨
      t.makeAll origin back back.reverse = (t, .error .notFound)) :
    t.makeAll origin (x :: back) steps = (t, .error e) := by
  by_cases he : e = .notFound
  · subst he
    rcases hback rfl with hback | hback
    · rw [makeAll_missing hmake hback, finish_of_error hmake hnot]
    · exact makeAll_stopped hmake hback
  · rw [makeAll_cons (by simpa [hmake] using he), finish_of_error hmake hnot]

theorem makeOne_of_error (h : t.follow origin steps = .error e) : t.makeOne origin steps = .error e := by
  rw [makeOne, h]
  rfl

theorem unreached_of_error (h : t.follow origin steps = .error e) : ∀ q, ¬t.Leads origin steps q := by
  intro q hq
  rw [follow_of_leads hq] at h
  cases h

/-- If the directory before the last part failed, so does the whole. -/
theorem FailsAgain.beyond {ways : List String → Prop} {e' : FileError} (hext : Extends steps back.reverse)
    (hmake : t.makeOne origin steps = .error .notFound) (hmade : Made origin ways t t')
    (h : FailsAgain t t' origin back back.reverse e e') : ∃ e', FailsAgain t t' origin (x :: back) steps e e' := by
  obtain ⟨rest, hrest, hfollow⟩ := hext
  have hback : ".." ∉ x :: back → ".." ∉ back := fun hdots hmem => hdots (List.mem_cons_of_mem _ hmem)
  rcases follow_beyond h.last h.unreached hrest with hbeyond | ⟨rfl, hfile, hbeyond⟩
  · rw [← hfollow] at hbeyond
    have hlast := makeOne_of_error hbeyond
    have hnot := unreached_of_error hbeyond
    refine ⟨e', hnot, hlast, makeAll_stays hlast hnot ?_, h.error, fun hs hdots => h.same hs (hback hdots)⟩
    rintro rfl
    exact .inr h.run
  · rw [← hfollow] at hbeyond
    have hlast := makeOne_of_error hbeyond
    have hnot := unreached_of_error hbeyond
    refine ⟨.notDirectory, hnot, hlast, makeAll_stays hlast hnot (by simp), .inr ?_, fun hs hdots => ?_⟩
    · rcases h.error with he | ⟨-, he⟩
      · exact ⟨he.symm, rfl⟩
      · cases he
    · -- a file on a way that only goes down was there before, and then the way was not missing
      obtain ⟨q, c, hq⟩ := hfile
      have hold : t.follow origin back.reverse = .ok (.taken q (.file c)) :=
        hmade.follow_file hs (by simpa using hback hdots) hq
      have hat : t.at? q = some (.file c) := (finds_of_follow hold).seen
      obtain ⟨step, others, rfl⟩ := List.exists_cons_of_ne_nil hrest
      have hmissing : t.follow origin steps = .error .notDirectory := by
        rw [hfollow, follow_append hrest, hold]
        exact FileTree.follow_file hat step others
      rw [makeOne_of_error hmissing] at hmake
      cases hmake

theorem makeAll_error_again (hext : ∀ x others, back = x :: others → Extends steps others.reverse)
    (h : t.makeAll origin back steps = (t', .error e)) : ∃ e', FailsAgain t t' origin back steps e e' := by
  induction back generalizing steps t' e with
  | nil =>
    rw [makeAll_nil] at h
    cases h
  | cons x back ih =>
    -- the failure may come from the directory before, from this one after that was made, or at once
    by_cases hmake : t.makeOne origin steps = .error .notFound
    · rcases hrun : t.makeAll origin back back.reverse with ⟨between, e₁ | _⟩
      · rw [makeAll_stopped hmake hrun] at h
        cases h
        have hmade : Made origin (fun _ => True) t t' := by
          have hmade : Made origin (fun _ => True) t (t.makeAll origin back back.reverse).1 :=
            makeAll_made back back.reverse trivial fun _ _ => trivial
          rwa [hrun] at hmade
        obtain ⟨e', hagain⟩ := ih (by rintro x others rfl; exact extends_reverse x others) hrun
        exact hagain.beyond (hext x back rfl) hmake hmade
      · rw [makeAll_missing hmake hrun] at h
        obtain ⟨rfl, hlast, hnot⟩ := finish_error h
        exact ⟨e, hnot, hlast, makeAll_stays hlast hnot fun _ => .inl (makeAll_ok_again hrun), .inl rfl, fun _ _ => rfl⟩
    · rw [makeAll_cons hmake] at h
      obtain ⟨rfl, hlast, hnot⟩ := finish_error h
      refine ⟨e, hnot, hlast, makeAll_stays hlast hnot ?_, .inl rfl, fun _ _ => rfl⟩
      rintro rfl
      exact absurd hlast hmake

end

/-! ## A directory again -/

section
variable {t t' t'' : FileTree} {path : String}

theorem start_of_made {r : Except FileError Unit} (h : t.makeDirectory path = (t', r)) : t'.start path = t.start path := by
  have hworking := (makeDirectory_made t path).working
  rw [h] at hworking
  rw [start, start, hworking]

/-- A directory that was made is there whatever files come and go. -/
theorem makeDirectory_ok_again (h : t.makeDirectory path = (t', .ok ())) (ht : t'.SameDirectories t'') :
    t''.makeDirectory path = (t'', .ok ()) := by
  have hstart := (ht.start path).trans (start_of_made h)
  unfold makeDirectory at h ⊢
  cases hcheck : checkPath path with
  | error e =>
    rw [hcheck] at h
    cases h
  | ok =>
    rw [hcheck] at h
    simp only at h ⊢
    rw [hstart]
    rcases makeAll_ok h with hnil | ⟨q, hq⟩
    · rw [hnil, makeAll_nil]
    · exact makeAll_leads (hq.mono fun p => (ht.directory p).mp)

theorem makeDirectory_error_again {e : FileError} (h : t.makeDirectory path = (t', .error e)) :
    ∃ e', t'.makeDirectory path = (t', .error e') ∧ (e' = e ∨ e = .alreadyExists ∧ e' = .notDirectory) ∧
      (t.Sound → ".." ∉ Path.steps path → e' = e) := by
  have hstart := start_of_made h
  unfold makeDirectory at h ⊢
  cases hcheck : checkPath path with
  | error e =>
    rw [hcheck] at h
    cases h
    exact ⟨e, rfl, .inl rfl, fun _ _ => rfl⟩
  | ok =>
    rw [hcheck] at h
    simp only at h ⊢
    obtain ⟨e', hagain⟩ := makeAll_error_again (fun x others hparts => extends_parts hparts) h
    refine ⟨e', by rw [hstart, hagain.run], hagain.error, fun hs hdots => hagain.same hs fun hmem => hdots ?_⟩
    exact Path.mem_parts (List.mem_reverse.mp hmem)

end

end FileTree

end TypedContent

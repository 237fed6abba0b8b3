import TypedContent.Proofs.Files.Directory

/-!
# Siblings

A path is taken apart into a directory and a name. Steps that stay where they are may be lost on the
way, so the directory may be written in another way, but it is the same one. A sibling of a file in a
directory is therefore in this directory too.
-/

namespace TypedContent

namespace Path

/-- The path without the last steps that stay where they are. -/
def trim (path : String) : String :=
  String.ofList ((splitFront path.toList).1 ++ (dropIdle (splitFront path.toList).2.reverse).reverse)

/-! ## The front of a path -/

theorem splitFront_of_no_front {cs : List Char} (hslash : cs.head? ≠ some '/') (hdot : cs ≠ ['.'])
    (hdots : ¬['.', '/'] <+: cs) : splitFront cs = ([], cs) := by
  unfold splitFront
  split
  · simp at hslash
  · simp at hdot
  · simp at hdots
  · rfl

/-- The three fronts, and what can come after each. -/
theorem splitFront_cases (cs : List Char) :
    (∃ rest, cs = '/' :: rest ∧ splitFront cs = (['/'], rest)) ∨
      (∃ rest, cs = '.' :: rest ∧ (rest = [] ∨ rest.head? = some '/') ∧ splitFront cs = (['.'], rest)) ∨
      cs.head? ≠ some '/' ∧ cs ≠ ['.'] ∧ ¬['.', '/'] <+: cs ∧ splitFront cs = ([], cs) := by
  by_cases hslash : cs.head? = some '/'
  · obtain ⟨rest, rfl⟩ := List.head?_eq_some_iff.mp hslash
    exact .inl ⟨rest, rfl, rfl⟩
  by_cases hdot : cs = ['.']
  · exact .inr (.inl ⟨[], hdot, .inl rfl, by rw [hdot]; rfl⟩)
  by_cases hdots : ['.', '/'] <+: cs
  · obtain ⟨rest, rfl⟩ := hdots
    exact .inr (.inl ⟨'/' :: rest, rfl, .inr rfl, rfl⟩)
  · exact .inr (.inr ⟨hslash, hdot, hdots, splitFront_of_no_front hslash hdot hdots⟩)

theorem splitFront_append {xs : List Char} (h : xs ≠ []) (ys : List Char) :
    splitFront (xs ++ '/' :: ys) = ((splitFront xs).1, (splitFront xs).2 ++ '/' :: ys) := by
  rcases splitFront_cases xs with ⟨rest, rfl, e⟩ | ⟨rest, rfl, hrest, e⟩ | ⟨hslash, hdot, hdots, e⟩
  · rfl
  · rw [e]
    rcases hrest with rfl | hrest
    · rfl
    · obtain ⟨rest, rfl⟩ := List.head?_eq_some_iff.mp hrest
      rfl
  · rw [e]
    obtain ⟨c, cs, rfl⟩ := List.exists_cons_of_ne_nil h
    refine splitFront_of_no_front (by simpa using hslash) (by simp) fun hc => ?_
    cases cs with
    | nil =>
      obtain rfl : '.' = c := by simpa using hc
      exact hdot rfl
    | cons d cs => exact hdots (by simpa using hc)

/-! ## The end of a path -/

theorem dropIdle_suffix (cs : List Char) : dropIdle cs <:+ cs := by
  fun_induction dropIdle cs with
  | case1 rest ih => exact ih.trans (List.suffix_cons _ _)
  | case2 => exact List.nil_suffix
  | case3 rest ih => exact ih.trans ((List.suffix_cons _ _).trans (List.suffix_cons _ _))
  | case4 cs => exact List.suffix_refl _

/-- What is lost are no moves. -/
theorem moves_dropIdle (cs : List Char) :
    moves (steps (String.ofList (dropIdle cs).reverse)) = moves (steps (String.ofList cs.reverse)) := by
  fun_induction dropIdle cs with
  | case1 rest ih =>
    have hpath : (String.ofList ('/' :: rest).reverse).toList = rest.reverse ++ '/' :: [] := by simp
    rw [ih, steps_slash hpath, moves_append]
    exact (List.append_nil _).symm
  | case2 => rfl
  | case3 rest ih =>
    have hpath : (String.ofList ('.' :: '/' :: rest).reverse).toList = rest.reverse ++ '/' :: ['.'] := by simp
    rw [ih, steps_slash hpath, moves_append]
    exact (List.append_nil _).symm
  | case4 cs => rfl

section
variable {name : String} (h : IsComponent name)
include h

theorem splitFront_component : splitFront name.toList = ([], name.toList) := by
  refine splitFront_of_no_front (fun e => h.no_slash (List.mem_of_head? e)) (fun e => h.not_dot (String.toList_inj.mp e))
    fun e => h.no_slash (e.subset (by simp))

theorem dropIdle_component (rest : List Char) :
    dropIdle (name.toList.reverse ++ rest) = name.toList.reverse ++ rest := by
  have hne : name.toList.reverse ≠ [] := fun e => h.nonempty (String.toList_inj.mp (List.reverse_eq_nil_iff.mp e))
  have hdot : name.toList.reverse ≠ ['.'] := fun e => h.not_dot (String.toList_inj.mp (List.reverse_eq_iff.mp e))
  have hslash : '/' ∉ name.toList.reverse := by simpa using h.no_slash
  obtain ⟨c, cs, e⟩ := List.exists_cons_of_ne_nil hne
  rw [e] at hdot hslash ⊢
  rw [List.mem_cons, not_or] at hslash
  unfold dropIdle
  split
  · next heq =>
    obtain ⟨rfl, -⟩ := List.cons.inj heq
    exact absurd rfl hslash.1
  · next heq =>
    obtain ⟨rfl, hnil⟩ := List.cons.inj heq
    rw [(List.append_eq_nil_iff.mp hnil).1] at hdot
    exact absurd rfl hdot
  · next heq =>
    obtain ⟨rfl, hrest⟩ := List.cons.inj heq
    cases cs with
    | nil => exact absurd rfl hdot
    | cons d cs =>
      obtain ⟨rfl, -⟩ := List.cons.inj hrest
      exact absurd List.mem_cons_self hslash.2
  · rfl

/-- A path that ends in a name, all alone or after a slash. -/
theorem split?_of_front {path : String} {front before : List Char}
    (hpath : splitFront path.toList = (front, before ++ name.toList)) (hbefore : before = [] ∨ before.getLast? = some '/') :
    split? path = some (String.ofList (front ++ (dropIdle before.reverse).reverse), name) := by
  have hname : ∀ c ∈ name.toList.reverse, decide (c ≠ '/') = true := by
    intro c hc
    have hmem : c ∈ name.toList := List.mem_reverse.mp hc
    simpa using fun e : c = '/' => h.no_slash (e ▸ hmem)
  have hrest : before.reverse.takeWhile (· ≠ '/') = [] ∧ before.reverse.dropWhile (· ≠ '/') = before.reverse := by
    rcases hbefore with rfl | hlast
    · exact ⟨rfl, rfl⟩
    · obtain ⟨cs, rfl⟩ := List.getLast?_eq_some_iff.mp hlast
      simp
  have hnonempty : name.toList ≠ [] := fun e => h.nonempty (String.toList_inj.mp e)
  have hdots : name.toList ≠ ['.', '.'] := fun e => h.not_dots (String.toList_inj.mp e)
  unfold split?
  rw [hpath]
  simp only [List.reverse_append, dropIdle_component h, List.takeWhile_append_of_pos hname,
    List.dropWhile_append_of_pos hname, hrest.1, hrest.2, List.append_nil, List.reverse_reverse, String.ofList_toList]
  rw [if_neg (by simp [hnonempty, hdots])]

theorem split?_slash {path : String} {xs : List Char} (hxs : xs ≠ []) (hpath : path.toList = xs ++ '/' :: name.toList) :
    split? path = some (trim (String.ofList xs), name) := by
  have hfront : splitFront path.toList = ((splitFront xs).1, ((splitFront xs).2 ++ ['/']) ++ name.toList) := by
    rw [hpath, splitFront_append hxs, List.append_assoc]
    rfl
  rw [split?_of_front h hfront (.inr (by simp)), List.reverse_append, trim, String.toList_ofList]
  rfl

omit h in
theorem trim_slash {directory : String} {xs : List Char} (hxs : xs ≠ []) (hd : directory.toList = xs ++ ['/']) :
    trim directory = trim (String.ofList xs) := by
  rw [trim, trim, hd, splitFront_append hxs, String.toList_ofList, List.reverse_append]
  rfl

/-- What has been put into a directory is there under its name. -/
theorem split?_join (directory : String) : split? (join directory name) = some (trim directory, name) := by
  have hrelative := not_isAbsolute h.no_slash
  unfold join
  by_cases hempty : directory = ""
  · have hfront : splitFront name.toList = ([], [] ++ name.toList) := splitFront_component h
    rw [if_pos (Or.inr (by simp [hempty])), split?_of_front h hfront (.inl rfl), hempty]
    rfl
  rw [if_neg (by simp [hrelative, hempty])]
  by_cases hslash : directory.toList.getLast? = some '/'
  · obtain ⟨xs, hd⟩ := List.getLast?_eq_some_iff.mp hslash
    have hjoin : (directory ++ name).toList = xs ++ '/' :: name.toList := by simp [hd]
    rw [if_pos hslash]
    by_cases hxs : xs = []
    · subst hxs
      have hfront : splitFront (directory ++ name).toList = (['/'], [] ++ name.toList) := by
        rw [hjoin]
        rfl
      rw [split?_of_front h hfront (.inl rfl), trim, hd]
      rfl
    · rw [split?_slash h hxs hjoin, trim_slash hxs hd]
  · have hd : directory.toList ≠ [] := fun e => hempty (String.toList_inj.mp e)
    rw [if_neg hslash, split?_slash h hd (by simp), String.ofList_toList]

/-- The sibling of what is in a directory is in it too. -/
theorem withFileName_join (directory other : String) :
    withFileName (join directory name) other = join (trim directory) other := by
  rw [withFileName, split?_join h]

theorem fileName_join (directory : String) : fileName (join directory name) = name := by
  rw [fileName, split?_join h]

end

/-! ## The same directory -/

theorem moves_front_slash (cs : List Char) :
    moves (steps (String.ofList ('/' :: cs))) = moves (steps (String.ofList cs)) := by
  have hpath : (String.ofList ('/' :: cs)).toList = [] ++ '/' :: cs := by simp
  rw [steps_slash hpath, moves_append]
  rfl

theorem moves_front_dot {cs : List Char} (h : cs = [] ∨ cs.head? = some '/') :
    moves (steps (String.ofList ('.' :: cs))) = moves (steps (String.ofList cs)) := by
  rcases h with rfl | h
  · rfl
  · obtain ⟨rest, rfl⟩ := List.head?_eq_some_iff.mp h
    have hpath : (String.ofList ('.' :: '/' :: rest)).toList = ['.'] ++ '/' :: rest := by simp
    rw [steps_slash hpath, moves_append, moves_front_slash]
    rfl

theorem head?_of_prefix {xs ys : List Char} (h : xs <+: ys) : xs = [] ∨ xs.head? = ys.head? := by
  obtain ⟨zs, rfl⟩ := h
  cases xs with
  | nil => exact .inl rfl
  | cons x xs => exact .inr rfl

/-- A trimmed path begins as the path does. -/
theorem trim_front (path : String) : ∃ kept : List Char, kept <+: (splitFront path.toList).2 ∧
    trim path = String.ofList ((splitFront path.toList).1 ++ kept) ∧
    moves (steps (String.ofList kept)) = moves (steps (String.ofList (splitFront path.toList).2)) := by
  have hbody := dropIdle_suffix (splitFront path.toList).2.reverse
  have hmoves := moves_dropIdle (splitFront path.toList).2.reverse
  rw [← List.reverse_prefix, List.reverse_reverse] at hbody
  rw [List.reverse_reverse] at hmoves
  exact ⟨_, hbody, rfl, hmoves⟩

theorem moves_trim (path : String) : moves (steps (trim path)) = moves (steps path) := by
  obtain ⟨kept, hkept, htrim, hmoves⟩ := trim_front path
  have hpath : path = String.ofList path.toList := String.ofList_toList.symm
  rw [htrim]
  rcases splitFront_cases path.toList with ⟨rest, e, hfront⟩ | ⟨rest, e, hrest, hfront⟩ | ⟨-, -, -, hfront⟩
  · rw [hfront] at hkept hmoves ⊢
    rw [hpath, e, List.singleton_append, moves_front_slash, moves_front_slash, hmoves]
  · rw [hfront] at hkept hmoves ⊢
    have hhead : kept = [] ∨ kept.head? = some '/' := by
      rcases hrest with rfl | hrest
      · exact .inl (List.prefix_nil.mp hkept)
      · exact hrest ▸ head?_of_prefix hkept
    rw [hpath, e, List.singleton_append, moves_front_dot hhead, moves_front_dot hrest, hmoves]
  · rw [hfront] at hmoves ⊢
    rw [List.nil_append, hmoves, String.ofList_toList]

theorem isAbsolute_trim (path : String) : isAbsolute (trim path) = isAbsolute path := by
  obtain ⟨kept, hkept, htrim, -⟩ := trim_front path
  rw [htrim, isAbsolute, isAbsolute, String.toList_ofList]
  rcases splitFront_cases path.toList with ⟨rest, e, hfront⟩ | ⟨rest, e, hrest, hfront⟩ | ⟨hslash, -, -, hfront⟩
  · rw [hfront, e]
    rfl
  · rw [hfront, e]
    rfl
  · rw [hfront] at hkept ⊢
    rw [List.nil_append]
    rcases head?_of_prefix hkept with rfl | hhead
    · exact (decide_eq_false hslash).symm
    · rw [hhead]

end Path

namespace FileTree

theorem reach_trim {t : FileTree} {directory : String} {p : Place} :
    t.reach (Path.trim directory) = .ok (.taken p .directory) ↔ t.reach directory = .ok (.taken p .directory) := by
  have hstart : t.start (Path.trim directory) = t.start directory := by
    rw [start, start, Path.isAbsolute_trim]
  rw [reach, reach, hstart, leads_iff, leads_iff, ← leads_moves, Path.moves_trim, leads_moves]

end FileTree

end TypedContent

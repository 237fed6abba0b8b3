import TypedContent.Files.Tree
import TypedContent.Proofs.Except

/-!
# What is seen of a tree of files

A tree is seen through `at?`. Writing, moving and removing a file change what is seen at the
places that are named, and keep every directory. So a path that leads to a directory goes on
leading there, and inside a directory the names stand for places that have nothing to do with
each other.
-/

namespace TypedContent

deriving instance DecidableEq for FileTree

/-! ## Steps of a path -/

namespace Path

/-- A name of something in a directory: one step of a path, and one that goes down. -/
structure IsComponent (name : String) : Prop where
  nonempty : name ≠ ""
  no_slash : '/' ∉ name.toList
  no_nul : '\x00' ∉ name.toList
  not_dot : name ≠ "."
  not_dots : name ≠ ".."

theorem splitSlashes_ne_nil : ∀ cs : List Char, splitSlashes cs ≠ []
  | [] => by simp [splitSlashes]
  | c :: rest => by
    unfold splitSlashes
    split
    · simp
    · split <;> simp

theorem splitSlashes_of_not_mem : ∀ {cs : List Char}, '/' ∉ cs → splitSlashes cs = [cs]
  | [], _ => rfl
  | c :: rest, h => by
    rw [List.mem_cons, not_or] at h
    rw [splitSlashes, if_neg (Ne.symm h.1), splitSlashes_of_not_mem h.2]

theorem splitSlashes_append (ys : List Char) : ∀ xs : List Char,
    splitSlashes (xs ++ '/' :: ys) = splitSlashes xs ++ splitSlashes ys
  | [] => by simp [splitSlashes]
  | c :: xs => by
    rw [List.cons_append]
    by_cases h : c = '/'
    · simp [splitSlashes, h, splitSlashes_append ys xs]
    · rw [splitSlashes, splitSlashes, if_neg h, if_neg h, splitSlashes_append ys xs]
      obtain ⟨piece, pieces, e⟩ := List.exists_cons_of_ne_nil (splitSlashes_ne_nil xs)
      rw [e]
      rfl

theorem steps_slash {path : String} {xs ys : List Char} (h : path.toList = xs ++ '/' :: ys) :
    steps path = steps (String.ofList xs) ++ steps (String.ofList ys) := by
  simp only [steps, h, splitSlashes_append, List.map_append, String.toList_ofList]

theorem steps_component {name : String} (h : IsComponent name) : steps name = [name] := by
  have hne : name.toList ≠ [] := fun e => h.nonempty (String.toList_inj.mp e)
  simp [steps, splitSlashes_of_not_mem h.no_slash, hne]

theorem not_isAbsolute {name : String} (h : '/' ∉ name.toList) : isAbsolute name = false := by
  unfold isAbsolute
  rw [decide_eq_false_iff_not, List.head?_eq_some_iff]
  rintro ⟨rest, e⟩
  exact h (e ▸ List.mem_cons_self)

end Path

namespace FileTree

open TypedContent.Path (IsComponent)

/-! ## Places after a change -/

section
variable {t : FileTree} {p : Place} {e : Entry}

@[simp] theorem at?_root (t : FileTree) : t.at? [] = some .directory := rfl

theorem find?_filter_ne (p q : Place) : ∀ entries : List (Place × Entry),
    (entries.filter (·.1 ≠ p)).find? (·.1 = q) = if q = p then none else entries.find? (·.1 = q)
  | [] => by simp
  | (r, e) :: rest => by
    have ih := find?_filter_ne p q rest
    by_cases hr : r = p
    · rw [List.filter_cons_of_neg (by simp [hr]), ih]
      by_cases hq : q = p
      · rw [if_pos hq, if_pos hq]
      · rw [if_neg hq, if_neg hq, List.find?_cons_of_neg (by simpa [hr] using Ne.symm hq)]
    · rw [List.filter_cons_of_pos (by simp [hr])]
      by_cases hq : r = q
      · rw [List.find?_cons_of_pos (by simp [hq]), List.find?_cons_of_pos (by simp [hq]), if_neg (hq ▸ hr)]
      · rw [List.find?_cons_of_neg (by simp [hq]), List.find?_cons_of_neg (by simp [hq]), ih]

theorem at?_put (h : p ≠ []) (q : Place) : (t.put p e).at? q = if q = p then some e else t.at? q := by
  unfold at? put
  by_cases hq : q = p
  · subst hq
    simp [h]
  · rw [if_neg hq, List.find?_cons_of_neg (by simpa using Ne.symm hq), find?_filter_ne, if_neg hq]

theorem at?_erase (h : p ≠ []) (q : Place) : (t.erase p).at? q = if q = p then none else t.at? q := by
  unfold at? erase
  rw [find?_filter_ne]
  by_cases hq : q = p
  · subst hq
    simp [h]
  · rw [if_neg hq, if_neg hq]

@[simp] theorem put_working : (t.put p e).working = t.working := rfl

@[simp] theorem erase_working : (t.erase p).working = t.working := rfl

end

/-- The trees look the same from every place. -/
structure Same (t t' : FileTree) : Prop where
  working : t.working = t'.working
  at? : ∀ p, t.at? p = t'.at? p

/-- The trees have the same directories; files may differ. -/
structure SameDirectories (t t' : FileTree) : Prop where
  working : t.working = t'.working
  directory : ∀ p, t.at? p = some .directory ↔ t'.at? p = some .directory

theorem SameDirectories.refl (t : FileTree) : t.SameDirectories t := ⟨rfl, fun _ => Iff.rfl⟩

theorem SameDirectories.trans {t t' t'' : FileTree} (h : t.SameDirectories t') (h' : t'.SameDirectories t'') :
    t.SameDirectories t'' :=
  ⟨h.working.trans h'.working, fun p => (h.directory p).trans (h'.directory p)⟩

theorem SameDirectories.symm {t t' : FileTree} (h : t.SameDirectories t') : t'.SameDirectories t :=
  ⟨h.working.symm, fun p => (h.directory p).symm⟩

theorem sameDirectories_put {t : FileTree} {p : Place} (hp : p ≠ []) (h : t.at? p ≠ some .directory) (c : Content) :
    t.SameDirectories (t.put p (.file c)) := by
  refine ⟨rfl, fun q => ?_⟩
  rw [at?_put hp]
  by_cases hq : q = p
  · simp [hq, h]
  · rw [if_neg hq]

theorem sameDirectories_erase {t : FileTree} {p : Place} (hp : p ≠ []) (h : t.at? p ≠ some .directory) :
    t.SameDirectories (t.erase p) := by
  refine ⟨rfl, fun q => ?_⟩
  rw [at?_erase hp]
  by_cases hq : q = p
  · simp [hq, h]
  · rw [if_neg hq]

/-! ## Following steps -/

section
variable {t t' : FileTree} {p q : Place} {e : Entry}

theorem follow_nil (h : t.at? p = some e) : t.follow p [] = .ok (.taken p e) := follow.eq_2 t p e h

theorem follow_none (h : t.at? p = none) (steps : List String) : t.follow p steps = .error .notFound :=
  follow.eq_1 t p steps h

theorem follow_file {c : Content} (h : t.at? p = some (.file c)) (step : String) (rest : List String) :
    t.follow p (step :: rest) = .error .notDirectory :=
  follow.eq_3 t p step rest c h

theorem follow_dot (h : t.at? p = some .directory) (rest : List String) : t.follow p ("." :: rest) = t.follow p rest := by
  rw [follow.eq_4 t p _ _ h, if_pos rfl]

theorem follow_dots (h : t.at? p = some .directory) (rest : List String) :
    t.follow p (".." :: rest) = t.follow p.dropLast rest := by
  rw [follow.eq_4 t p _ _ h, if_neg (by decide), if_pos rfl]

/-- What is seen at a place, as the end of a path. -/
def lookAt (t : FileTree) (p : Place) : Target :=
  match t.at? p with
  | none => .free p
  | some e => .taken p e

/-- Goes on from where a path has led. -/
def onward (t : FileTree) (steps : List String) : Target → Except FileError Target
  | .taken p _ => t.follow p steps
  | .free _ => .error .notFound

theorem follow_down (h : t.at? p = some .directory) {step : String} (hdot : step ≠ ".") (hdots : step ≠ "..")
    (rest : List String) : t.follow p (step :: rest) =
      if Path.longestName < step.utf8ByteSize then .error .nameTooLong
      else if rest = [] then .ok (t.lookAt (p ++ [step]))
      else t.follow (p ++ [step]) rest := by
  rw [follow.eq_4 t p _ _ h, if_neg hdot, if_neg hdots]
  split
  · rfl
  · unfold lookAt
    cases hq : t.at? (p ++ [step]) with
    | none =>
      cases rest with
      | nil => simp [hq]
      | cons next rest => simp [hq, follow_none hq]
    | some e =>
      cases rest with
      | nil => simp [hq, follow_nil hq]
      | cons next rest => simp [hq]

theorem follow_append {ys : List String} (hy : ys ≠ []) (p : Place) (xs : List String) :
    t.follow p (xs ++ ys) = t.follow p xs >>= t.onward ys := by
  induction xs generalizing p with
  | nil =>
    rw [List.nil_append]
    cases h : t.at? p with
    | none => rw [follow_none h, follow_none h]; rfl
    | some e => rw [follow_nil h]; rfl
  | cons x xs ih =>
    rw [List.cons_append]
    cases h : t.at? p with
    | none => rw [follow_none h, follow_none h]; rfl
    | some e =>
      cases e with
      | file c => rw [follow_file h, follow_file h]; rfl
      | directory =>
        by_cases hdot : x = "."
        · rw [hdot, follow_dot h, follow_dot h, ih]
        by_cases hdots : x = ".."
        · rw [hdots, follow_dots h, follow_dots h, ih]
        rw [follow_down h hdot hdots, follow_down h hdot hdots]
        split
        · rfl
        rw [if_neg (by simp [hy])]
        by_cases hxs : xs = []
        · subst hxs
          rw [if_pos rfl, List.nil_append]
          unfold lookAt
          cases hq : t.at? (p ++ [x]) with
          | none => rw [follow_none hq]; rfl
          | some e => rfl
        · rw [if_neg hxs, ih]

/-- A step to the place itself changes nothing if other steps come after it. -/
theorem follow_dot_cons (p : Place) (step : String) (rest : List String) :
    t.follow p ("." :: step :: rest) = t.follow p (step :: rest) := by
  cases h : t.at? p with
  | none => rw [follow_none h, follow_none h]
  | some e =>
    cases e with
    | file c => rw [follow_file h, follow_file h]
    | directory => rw [follow_dot h]

end

/-! ## Ways that lead somewhere -/

/-- Following the steps ends at the target, after directories only. -/
inductive Finds (t : FileTree) : Place → List String → Target → Prop
  | here {p : Place} {e : Entry} : t.at? p = some e → Finds t p [] (.taken p e)
  | dot {p : Place} {rest : List String} {target : Target} :
    t.at? p = some .directory → Finds t p rest target → Finds t p ("." :: rest) target
  | dots {p : Place} {rest : List String} {target : Target} :
    t.at? p = some .directory → Finds t p.dropLast rest target → Finds t p (".." :: rest) target
  | last {p : Place} {step : String} : t.at? p = some .directory → step ≠ "." → step ≠ ".." →
    ¬Path.longestName < step.utf8ByteSize → Finds t p [step] (t.lookAt (p ++ [step]))
  | down {p : Place} {step : String} {rest : List String} {target : Target} : t.at? p = some .directory → step ≠ "." →
    step ≠ ".." → ¬Path.longestName < step.utf8ByteSize → rest ≠ [] → Finds t (p ++ [step]) rest target →
    Finds t p (step :: rest) target

theorem finds_of_follow {t : FileTree} {p : Place} {steps : List String} {target : Target}
    (h : t.follow p steps = .ok target) : t.Finds p steps target := by
  induction steps generalizing p with
  | nil =>
    cases hp : t.at? p with
    | none => rw [follow_none hp] at h; cases h
    | some e => rw [follow_nil hp] at h; cases h; exact .here hp
  | cons step rest ih =>
    cases hp : t.at? p with
    | none => rw [follow_none hp] at h; cases h
    | some e =>
      cases e with
      | file c => rw [follow_file hp] at h; cases h
      | directory =>
        by_cases hdot : step = "."
        · subst hdot
          rw [follow_dot hp] at h
          exact .dot hp (ih h)
        by_cases hdots : step = ".."
        · subst hdots
          rw [follow_dots hp] at h
          exact .dots hp (ih h)
        rw [follow_down hp hdot hdots] at h
        split at h
        · cases h
        split at h
        · next hsize hrest =>
          cases h
          exact hrest ▸ .last hp hdot hdots hsize
        · next hsize hrest => exact .down hp hdot hdots hsize hrest (ih h)

/-- What the tree shows at the target. -/
def Target.Seen (t : FileTree) : Target → Prop
  | .taken p e => t.at? p = some e
  | .free p => t.at? p = none

def Target.place : Target → Place
  | .taken p _ => p
  | .free p => p

theorem place_lookAt (t : FileTree) (p : Place) : (t.lookAt p).place = p := by
  unfold lookAt
  cases t.at? p <;> rfl

theorem seen_lookAt (t : FileTree) (p : Place) : (t.lookAt p).Seen t := by
  unfold lookAt
  cases h : t.at? p <;> exact h

theorem Finds.seen {t : FileTree} {p : Place} {steps : List String} {target : Target} (h : t.Finds p steps target) :
    target.Seen t := by
  induction h with
  | here hp => exact hp
  | dot _ _ ih => exact ih
  | dots _ _ ih => exact ih
  | last => exact seen_lookAt t _
  | down _ _ _ _ _ _ ih => exact ih

/-! ## Ways to a directory -/

/-- The steps lead from one directory to another, through directories only. -/
inductive Leads (t : FileTree) : Place → List String → Place → Prop
  | here {p : Place} : t.at? p = some .directory → Leads t p [] p
  | dot {p q : Place} {rest : List String} : t.at? p = some .directory → Leads t p rest q → Leads t p ("." :: rest) q
  | dots {p q : Place} {rest : List String} :
    t.at? p = some .directory → Leads t p.dropLast rest q → Leads t p (".." :: rest) q
  | down {p q : Place} {step : String} {rest : List String} : t.at? p = some .directory → step ≠ "." → step ≠ ".." →
    ¬Path.longestName < step.utf8ByteSize → Leads t (p ++ [step]) rest q → Leads t p (step :: rest) q

section
variable {t t' : FileTree} {p q : Place} {steps : List String}

theorem Leads.source (h : t.Leads p steps q) : t.at? p = some .directory := by
  cases h <;> assumption

theorem Leads.target (h : t.Leads p steps q) : t.at? q = some .directory := by
  induction h with
  | here hp => exact hp
  | dot _ _ ih => exact ih
  | dots _ _ ih => exact ih
  | down _ _ _ _ _ ih => exact ih

theorem Leads.mono (ht : ∀ p, t.at? p = some .directory → t'.at? p = some .directory) (h : t.Leads p steps q) :
    t'.Leads p steps q := by
  induction h with
  | here hp => exact .here (ht _ hp)
  | dot hp _ ih => exact .dot (ht _ hp) ih
  | dots hp _ ih => exact .dots (ht _ hp) ih
  | down hp hdot hdots hsize _ ih => exact .down (ht _ hp) hdot hdots hsize ih

/-- If a directory stands at the target, in this tree or in one with more directories, then the
steps lead to it there. -/
theorem Finds.leads {target : Target} (h : t.Finds p steps target)
    (ht : ∀ p, t.at? p = some .directory → t'.at? p = some .directory)
    (htarget : t'.at? target.place = some .directory) : t'.Leads p steps target.place := by
  induction h with
  | here => exact .here htarget
  | dot hp _ ih => exact .dot (ht _ hp) (ih htarget)
  | dots hp _ ih => exact .dots (ht _ hp) (ih htarget)
  | last hp hdot hdots hsize =>
    rw [place_lookAt] at htarget ⊢
    exact .down (ht _ hp) hdot hdots hsize (.here htarget)
  | down hp hdot hdots hsize _ _ ih => exact .down (ht _ hp) hdot hdots hsize (ih htarget)

theorem leads_of_follow (h : t.follow p steps = .ok (.taken q .directory)) : t.Leads p steps q :=
  (finds_of_follow h).leads (fun _ hp => hp) (finds_of_follow h).seen

theorem follow_of_leads (h : t.Leads p steps q) : t.follow p steps = .ok (.taken q .directory) := by
  induction h with
  | here hp => exact follow_nil hp
  | dot hp _ ih => rw [follow_dot hp, ih]
  | dots hp _ ih => rw [follow_dots hp, ih]
  | @down p q step rest hp hdot hdots hsize hrest ih =>
    rw [follow_down hp hdot hdots, if_neg hsize]
    split
    · next hnil =>
      subst hnil
      cases hrest with
      | here hq => rw [lookAt, hq]
    · exact ih

theorem leads_iff : t.follow p steps = .ok (.taken q .directory) ↔ t.Leads p steps q :=
  ⟨leads_of_follow, follow_of_leads⟩

end

/-! ## Names in a directory -/

/-- Where a path leads, whatever its length. -/
def reach (t : FileTree) (path : String) : Except FileError Target := t.follow (t.start path) (Path.steps path)

theorem SameDirectories.start {t t' : FileTree} (h : t.SameDirectories t') (path : String) :
    t'.start path = t.start path := by
  rw [FileTree.start, FileTree.start, h.working]

theorem SameDirectories.reach {t t' : FileTree} (h : t.SameDirectories t') {path : String} {p : Place}
    (hp : t.reach path = .ok (.taken p .directory)) : t'.reach path = .ok (.taken p .directory) := by
  rw [FileTree.reach, h.start]
  exact follow_of_leads ((leads_of_follow hp).mono fun q => (h.directory q).mp)

theorem start_of_relative {path : String} (h : Path.isAbsolute path = false) (t : FileTree) :
    t.start path = t.working := by
  rw [start, if_neg (by simp [h])]

section
variable {t : FileTree} {directory name : String}

theorem start_append (h : directory ≠ "") (rest : String) : t.start (directory ++ rest) = t.start directory := by
  obtain ⟨c, cs, e⟩ := List.exists_cons_of_ne_nil (l := directory.toList) (fun e => h (String.toList_inj.mp e))
  simp [start, Path.isAbsolute, e]

theorem reach_join (hn : IsComponent name) :
    t.reach (Path.join directory name) = t.reach directory >>= t.onward [name] := by
  have hrelative := Path.not_isAbsolute hn.no_slash
  have hname := Path.steps_component hn
  unfold Path.join reach
  by_cases hempty : directory = ""
  · rw [if_pos (Or.inr (by simp [hempty])), start_of_relative hrelative, hname, hempty,
      start_of_relative (show Path.isAbsolute "" = false by decide), show Path.steps "" = ["."] by decide,
      ← follow_append (by simp)]
    exact (follow_dot_cons _ _ _).symm
  rw [if_neg (by simp [hrelative, hempty])]
  by_cases hslash : directory.toList.getLast? = some '/'
  · obtain ⟨cs, hcs⟩ := List.getLast?_eq_some_iff.mp hslash
    have hjoin : (directory ++ name).toList = cs ++ '/' :: name.toList := by simp [hcs]
    rw [if_pos hslash, start_append hempty, Path.steps_slash hjoin, Path.steps_slash hcs, String.ofList_toList, hname,
      ← follow_append (by simp), List.append_assoc, follow_append (by simp), follow_append (by simp)]
    refine congrArg _ (funext fun target => ?_)
    cases target with
    | free => rfl
    | taken p e => exact (follow_dot_cons _ _ _).symm
  · have hjoin : (directory ++ "/" ++ name).toList = directory.toList ++ '/' :: name.toList := by simp
    rw [if_neg hslash, Path.steps_slash hjoin, String.append_assoc, start_append hempty, String.ofList_toList,
      String.ofList_toList, hname, follow_append (by simp)]

theorem target_join (hn : IsComponent name) : t.target (Path.join directory name) =
    checkPath (Path.join directory name) >>= fun _ => t.reach directory >>= t.onward [name] := by
  have hne : (Path.join directory name).isEmpty = false := by
    have hname : name.isEmpty = false := by simp [hn.nonempty]
    unfold Path.join
    split
    · exact hname
    split <;> simp [hn.nonempty]
  rw [target, hne]
  simp only [Bool.false_eq_true, if_false]
  rw [← reach_join hn]
  rfl

end

/-- What is asked of a name before it is looked up in a directory. -/
def admits (directory name : String) : Except FileError Unit := do
  checkPath (Path.join directory name)
  if Path.longestName < name.utf8ByteSize then .error .nameTooLong else .ok ()

section
variable {t : FileTree} {directory name : String} {p : Place}
  (hd : t.reach directory = .ok (.taken p .directory)) (hn : IsComponent name)
include hd hn

theorem target_of_reach : t.target (Path.join directory name) =
    admits directory name >>= fun _ => .ok (t.lookAt (p ++ [name])) := by
  have hp : t.at? p = some .directory := (leads_of_follow hd).target
  rw [target_join hn, hd, admits]
  cases checkPath (Path.join directory name) with
  | error e => rfl
  | ok u =>
    change t.follow p [name] = _
    rw [follow_down hp hn.not_dot hn.not_dots, if_pos rfl]
    by_cases hlong : Path.longestName < name.utf8ByteSize
    · rw [if_pos hlong]
      simp [bind, Except.bind, hlong]
    · rw [if_neg hlong]
      simp [bind, Except.bind, hlong]

theorem writeText_of_reach (content : String) : t.writeText (Path.join directory name) content =
    admits directory name >>= fun _ =>
      if t.at? (p ++ [name]) = some .directory then .error .isDirectory
      else .ok (t.put (p ++ [name]) (.file (.text content))) := by
  rw [writeText, target_of_reach hd hn]
  cases admits directory name with
  | error e => rfl
  | ok u =>
    simp only [bind, Except.bind, lookAt]
    cases hq : t.at? (p ++ [name]) with
    | none => simp
    | some e => cases e <;> simp

theorem removeFile_of_reach : t.removeFile (Path.join directory name) =
    admits directory name >>= fun _ =>
      match t.at? (p ++ [name]) with
      | none => .error .notFound
      | some .directory => .error .isDirectory
      | some (.file _) => .ok (t.erase (p ++ [name])) := by
  rw [removeFile, target_of_reach hd hn]
  cases admits directory name with
  | error e => rfl
  | ok u =>
    simp only [bind, Except.bind, lookAt]
    cases hq : t.at? (p ++ [name]) with
    | none => simp
    | some e => cases e <;> simp

/-- The directory of the two names may be written in two ways. -/
theorem rename_of_reach {directory' other : String} (hd' : t.reach directory' = .ok (.taken p .directory))
    (ho : IsComponent other) : t.rename (Path.join directory name) (Path.join directory' other) =
      admits directory name >>= fun _ =>
        match t.at? (p ++ [name]) with
        | none => .error .notFound
        | some .directory => .error .isDirectory
        | some (.file content) =>
          admits directory' other >>= fun _ =>
            if t.at? (p ++ [other]) = some .directory then .error .isDirectory
            else .ok ((t.erase (p ++ [name])).put (p ++ [other]) (.file content)) := by
  rw [rename, target_of_reach hd hn]
  cases admits directory name with
  | error e => rfl
  | ok u =>
    simp only [bind, Except.bind, lookAt]
    cases hq : t.at? (p ++ [name]) with
    | none => simp
    | some e =>
      cases e with
      | directory => simp
      | file content =>
        simp only
        rw [target_of_reach hd' ho]
        cases admits directory' other with
        | error e => rfl
        | ok u =>
          simp only [bind, Except.bind, lookAt]
          cases ho : t.at? (p ++ [other]) with
          | none => simp
          | some e => cases e <;> simp

end

/-! ## Operations of the store -/

section
variable {t : FileTree} {path : String} {e : FileError} (h : t.target path = .error e)
include h

theorem writeText_of_target (content : String) : t.writeText path content = .error e := by
  rw [writeText, h]
  rfl

theorem removeFile_of_target : t.removeFile path = .error e := by
  rw [removeFile, h]
  rfl

end

section
variable (t : FileTree) (path other content : String)

theorem run_readText : (FileStore.readText path : StateM FileTree _).run t = (t.readText path, t) := rfl

theorem run_makeDirectory : (FileStore.makeDirectory path : StateM FileTree _).run t =
    ((t.makeDirectory path).2, (t.makeDirectory path).1) := rfl

theorem run_writeText : (FileStore.writeText path content : StateM FileTree _).run t =
    match t.writeText path content with
    | .ok t' => (.ok (), t')
    | .error e => (.error e, t) := rfl

theorem run_rename : (FileStore.rename path other : StateM FileTree _).run t =
    match t.rename path other with
    | .ok t' => (.ok (), t')
    | .error e => (.error e, t) := rfl

theorem run_removeFile : (FileStore.removeFile path : StateM FileTree _).run t =
    match t.removeFile path with
    | .ok t' => (.ok (), t')
    | .error e => (.error e, t) := rfl

end

end FileTree

end TypedContent

import TypedContent.Proofs.Schema.Walk

/-!
# The walk without a memory

`Schema.plainWalk` enters an object whenever it meets it, unless the object is open already:
it stands on the path from the document to the reference. Objects that are reached on
several paths are entered on each of them. `collect` enters every object once, and yet finds
the same objects in the same order and the same first reference to nothing.

The proof follows the colours of a depth first search. An object that is found but not on the
path is finished: its references lead to objects found as well, so entering it again meets
nothing new.
-/

namespace TypedContent

/-! ## References in reading order -/

section
variable {Label β : Type} (visit : String → String → List β)

mutual

/-- What visiting the object references of a kind gives, in reading order. A visit gets the
name of the field and of the object. -/
def Kind.visitObjects (field : String) : Kind Label → List β
  | .object target => visit field target
  | .inlineObject fields => visitObjects fields
  | .list item => visitItem field item
  | .polymorphicList items _ => visitItems field items
  | _ => []

def visitObjects : List (Field Label) → List β
  | [] => []
  | ⟨a, kind⟩ :: rest => kind.visitObjects a.name ++ visitObjects rest

def visitItem (field : String) : Item Label → List β
  | ⟨_, .object target⟩ => visit field target
  | ⟨_, .inlineObject fields⟩ => visitObjects fields
  | _ => []

def visitItems (field : String) : List (Item Label) → List β
  | [] => []
  | item :: rest => visitItem field item ++ visitItems field rest

end

def visitLinks (ls : List Link) : List β := (ls.filter (·.table = .object)).flatMap fun l => visit l.field l.target

theorem visitLinks_append (l₁ l₂ : List Link) :
    visitLinks visit (l₁ ++ l₂) = visitLinks visit l₁ ++ visitLinks visit l₂ := by
  simp [visitLinks]

mutual

theorem visitObjects_kind (field : String) : ∀ kind : Kind Label,
    kind.visitObjects visit field = visitLinks visit (kind.links field)
  | .inlineObject fields => by rw [Kind.visitObjects, Kind.links, visitObjects_eq fields]
  | .list item => by rw [Kind.visitObjects, links_list, visitItem_eq field item]
  | .polymorphicList items _ => by rw [Kind.visitObjects, Kind.links, visitItems_eq field items]
  | .object _ => by simp [Kind.visitObjects, Kind.links, visitLinks]
  | .reference _ => by simp [Kind.visitObjects, Kind.links, visitLinks]
  | .string | .boolean | .number | .date | .markdown | .enum _ | .other _ => by
    simp [Kind.visitObjects, Kind.links, visitLinks]

theorem visitObjects_eq : ∀ fields : List (Field Label), visitObjects visit fields = visitLinks visit (links fields)
  | [] => rfl
  | ⟨a, kind⟩ :: rest => by
    rw [visitObjects, links, visitLinks_append, visitObjects_kind a.name kind, visitObjects_eq rest]

theorem visitItem_eq (field : String) : ∀ item : Item Label,
    visitItem visit field item = visitLinks visit (itemLinks field [item])
  | ⟨_, .inlineObject fields⟩ => by
    rw [visitItem, itemLinks, itemLinks, List.append_nil, visitObjects_eq fields]
  | ⟨_, .object _⟩ | ⟨_, .string⟩ | ⟨_, .boolean⟩ | ⟨_, .enum _⟩ => by
    simp [visitItem, itemLinks, visitLinks]

theorem visitItems_eq (field : String) : ∀ items : List (Item Label),
    visitItems visit field items = visitLinks visit (itemLinks field items)
  | [] => rfl
  | item :: rest => by
    rw [visitItems, itemLinks_cons, visitLinks_append, visitItem_eq field item, visitItems_eq field rest]

end

end

namespace Schema

/-! ## The plain walk -/

inductive Meeting where
  | object (o : ObjectType)
  | nothing (owner field target : String)

def Meeting.object? : Meeting → Option ObjectType
  | .object o => some o
  | .nothing .. => none

def Meeting.error? : Meeting → Option SchemaError
  | .object _ => none
  | .nothing owner field target => some (.unresolvedObject owner field target)

/-- What the plain walk meets from a reference in a field of `owner`; the objects of `path`
are open. -/
def meet (s : Schema) (path : List ObjectType) (owner field target : String) : List Meeting :=
  match _h : s.objects.get? target with
  | none => [.nothing owner field target]
  | some o =>
    .object o :: if _hn : isFound path o then [] else visitObjects (s.meet (path ++ [o]) o.name) o.fields
termination_by s.unfound path
decreasing_by exact unfound_lt _h (by simpa using _hn)

/-- What the plain walk meets: documents, fields and items in order. -/
def plainWalk (s : Schema) : List Meeting :=
  s.documents.entries.flatMap fun d => visitObjects (s.meet [] d.name) d.fields

variable {s : Schema}

def meetAt (s : Schema) (path : List ObjectType) (p : Pending) : List Meeting :=
  s.meet path p.owner p.link.field p.link.target

theorem visitObjects_meet (path : List ObjectType) (owner : String) (fields : List SourceField) :
    visitObjects (s.meet path owner) fields = (pending owner fields).flatMap (s.meetAt path) := by
  rw [visitObjects_eq, visitLinks, pending, List.flatMap_map]
  rfl

theorem meetAt_none {p : Pending} (h : s.objects.get? p.link.target = none) (path : List ObjectType) :
    s.meetAt path p = [.nothing p.owner p.link.field p.link.target] := by
  rw [meetAt, meet]
  split
  · rfl
  · rename_i o ho; rw [h] at ho; cases ho

theorem meetAt_some {p : Pending} {o : ObjectType} (h : s.objects.get? p.link.target = some o) (path : List ObjectType) :
    s.meetAt path p = .object o ::
      if isFound path o then [] else (pending o.name o.fields).flatMap (s.meetAt (path ++ [o])) := by
  rw [meetAt, meet]
  split
  · rename_i ho; rw [h] at ho; cases ho
  · rename_i o' ho
    rw [h] at ho; cases ho
    rw [dite_eq_ite, visitObjects_meet]

/-! ## From meetings to what is found -/

/-- What comes of meetings once some objects are found: the new objects in order, or the
first error. -/
def outcome (found : List ObjectType) : List Meeting → Except SchemaError (List ObjectType)
  | [] => .ok found
  | .nothing owner field target :: _ => .error (.unresolvedObject owner field target)
  | .object o :: rest => if isFound found o then outcome found rest else outcome (found ++ [o]) rest

theorem outcome_append : ∀ (found : List ObjectType) (a b : List Meeting),
    outcome found (a ++ b) = outcome found a >>= fun found' => outcome found' b
  | found, [], b => rfl
  | found, .nothing owner field target :: a, b => rfl
  | found, .object o :: a, b => by
    rw [List.cons_append, outcome, outcome]
    by_cases h : isFound found o = true
    · rw [if_pos h, if_pos h, outcome_append found a b]
    · rw [if_neg h, if_neg h, outcome_append _ a b]

theorem isFound_of_mem {found : List ObjectType} {o : ObjectType} (h : o ∈ found) : isFound found o = true :=
  List.any_eq_true.mpr ⟨o, h, by simp⟩

theorem isFound_append {a b : List ObjectType} {o : ObjectType} :
    isFound (a ++ b) o = true ↔ isFound a o = true ∨ isFound b o = true := by
  simp [isFound]

theorem outcome_of_found {found : List ObjectType} {b : List Meeting} : ∀ {a : List Meeting},
    (∀ m ∈ a, ∃ o ∈ found, m = .object o) → outcome found (a ++ b) = outcome found b
  | [], _ => rfl
  | m :: a, h => by
    obtain ⟨⟨o, ho, rfl⟩, ha⟩ := List.forall_mem_cons.mp h
    rw [List.cons_append, outcome, if_pos (isFound_of_mem ho), outcome_of_found ha]

def firstOccurrences (os : List ObjectType) : List ObjectType := os.eraseDupsBy (·.name == ·.name)

theorem firstOccurrences_cons (o : ObjectType) (os : List ObjectType) :
    firstOccurrences (o :: os) = o :: firstOccurrences (os.filter fun x => x.name ≠ o.name) := by
  rw [firstOccurrences, List.eraseDupsBy_cons]
  congr 2
  apply List.filter_congr
  intro x _
  by_cases h : x.name = o.name <;> simp [h]

theorem filter_new (found os : List ObjectType) (o : ObjectType) :
    (os.filter (!isFound found ·)).filter (fun x => x.name ≠ o.name) = os.filter (!isFound (found ++ [o]) ·) := by
  rw [List.filter_filter]
  apply List.filter_congr
  intro x _
  simp [isFound, Bool.and_comm, eq_comm]

/-- The first error of the meetings, or the objects that are met and were not found before. -/
theorem outcome_eq : ∀ (ms : List Meeting) (found : List ObjectType),
    outcome found ms = match ms.findSome? Meeting.error? with
      | some e => .error e
      | none => .ok (found ++ firstOccurrences ((ms.filterMap Meeting.object?).filter (!isFound found ·)))
  | [], found => by simp [outcome, firstOccurrences]
  | .nothing owner field target :: ms, found => by rw [outcome, List.findSome?_cons]; rfl
  | .object o :: ms, found => by
    have herr : (Meeting.object o :: ms).findSome? Meeting.error? = ms.findSome? Meeting.error? := by
      rw [List.findSome?_cons]; rfl
    have hobj : (Meeting.object o :: ms).filterMap Meeting.object? = o :: ms.filterMap Meeting.object? := by
      rw [List.filterMap_cons]; rfl
    rw [outcome, herr, hobj, List.filter_cons]
    by_cases h : isFound found o = true
    · rw [if_pos h, outcome_eq ms found]
      simp [h]
    · rw [if_neg h, outcome_eq ms (found ++ [o]), if_pos (by simp [h]), firstOccurrences_cons, filter_new,
        List.append_assoc, List.singleton_append]

/-! ## Finished objects -/

/-- Every object that is found is open or has its references lead to objects that are found. -/
def Finished (s : Schema) (path found : List ObjectType) : Prop :=
  ∀ o ∈ found, isFound path o = true ∨ ∀ p ∈ pending o.name o.fields, s.Leads found p

theorem Leads.mono {found found' : List ObjectType} (hs : found ⊆ found') {p : Pending} (h : s.Leads found p) :
    s.Leads found' p := by
  obtain ⟨o, ho, hp⟩ := h
  exact ⟨o, hs ho, hp⟩

/-- From a reference that leads to a found object the plain walk meets found objects only. -/
theorem meetAt_finished {path found : List ObjectType} (hfin : s.Finished path found) (path' : List ObjectType)
    (hpath : ∀ o, isFound path o = true → isFound path' o = true) (p : Pending) (hp : s.Leads found p) :
    ∀ m ∈ s.meetAt path' p, ∃ o ∈ found, m = .object o := by
  obtain ⟨o, ho, hget⟩ := hp
  intro m hm
  rw [meetAt_some hget, List.mem_cons] at hm
  rcases hm with rfl | hm
  · exact ⟨o, ho, rfl⟩
  · cases hf : isFound path' o with
    | true => rw [hf] at hm; cases hm
    | false =>
      rw [hf] at hm
      obtain ⟨q, hq, hm⟩ := List.mem_flatMap.mp hm
      have hq : s.Leads found q := by
        rcases hfin o ho with h | h
        · rw [hpath o h] at hf; cases hf
        · exact h q hq
      have := unfound_lt hget hf
      exact meetAt_finished hfin (path' ++ [o]) (fun x hx => isFound_append.mpr (Or.inl (hpath x hx))) q hq m hm
termination_by s.unfound path'

theorem finished_open {path found : List ObjectType} (hfin : s.Finished path found) (o : ObjectType) :
    s.Finished (path ++ [o]) (found ++ [o]) := by
  intro x hx
  rcases List.mem_append.mp hx with hx | hx
  · rcases hfin x hx with h | h
    · exact Or.inl (isFound_append.mpr (Or.inl h))
    · exact Or.inr fun p hp => (h p hp).mono (List.subset_append_left _ _)
  · exact Or.inl (isFound_append.mpr (Or.inr (isFound_of_mem hx)))

theorem finished_close {path found found' : List ObjectType} {o : ObjectType} (hfin : s.Finished path found)
    (hr : s.Registered (found ++ [o])) (h : s.walk (found ++ [o]) (pending o.name o.fields) = .ok found') :
    s.Finished path found' := by
  have hsub := walk_subset h
  obtain ⟨htodo, hnew⟩ := walk_closed h hr
  intro x hx
  rcases hnew x hx with hx | hx
  · rcases List.mem_append.mp hx with hx | hx
    · rcases hfin x hx with h | h
      · exact Or.inl h
      · exact Or.inr fun p hp => (h p hp).mono (List.Subset.trans (List.subset_append_left _ _) hsub)
    · rw [List.mem_singleton.mp hx]
      exact Or.inr htodo
  · exact Or.inr hx

theorem isFound_mono {found found' : List ObjectType} (hs : found ⊆ found') {o : ObjectType}
    (h : isFound found o = true) : isFound found' o = true := by
  obtain ⟨x, hx, he⟩ := List.any_eq_true.mp h
  exact List.any_eq_true.mpr ⟨x, hs hx, he⟩

/-- The walk with a memory, from references on a path, finds what the plain walk meets. -/
theorem walk_eq_outcome (path found : List ObjectType) (todo : List Pending) (hr : s.Registered found)
    (hpath : ∀ o, isFound path o = true → isFound found o = true) (hfin : s.Finished path found)
    (hobj : ∀ p ∈ todo, p.link.table = .object) :
    s.walk found todo = outcome found (todo.flatMap (s.meetAt path)) := by
  match todo with
  | [] => rw [walk_nil]; rfl
  | p :: rest =>
    obtain ⟨hp, hrest⟩ := List.forall_mem_cons.mp hobj
    rw [List.flatMap_cons]
    cases hget : s.objects.get? p.link.target with
    | none =>
      rw [walk_missing hget, meetAt_none hget, unresolved, hp]
      rfl
    | some o =>
      cases hf : isFound found o with
      | true =>
        -- open or finished: either way nothing new is met
        have hleads : s.Leads found p := ⟨o, mem_of_isFound hr hget hf, hget⟩
        rw [walk_again hget hf, outcome_of_found (meetAt_finished hfin path (fun _ h => h) p hleads),
          walk_eq_outcome path found rest hr hpath hfin hrest]
      | false =>
        have hopen : isFound path o = false := by
          cases h : isFound path o with
          | false => rfl
          | true => rw [hpath o h] at hf; cases hf
        have hr' := registered_append hr hget
        have hpath' : ∀ x, isFound (path ++ [o]) x = true → isFound (found ++ [o]) x = true := fun x hx =>
          isFound_append.mpr ((isFound_append.mp hx).imp_left (hpath x))
        have := unfound_lt hget hopen
        have inner := walk_eq_outcome (path ++ [o]) (found ++ [o]) (pending o.name o.fields) hr' hpath'
          (finished_open hfin o) (fun _ hq => (mem_pending.mp hq).2.1)
        rw [walk_new hget hf, walk_append, meetAt_some hget, hopen, List.cons_append, outcome, hf, if_neg (by simp),
          if_neg (by simp), outcome_append, ← inner]
        cases hw : s.walk (found ++ [o]) (pending o.name o.fields) with
        | error e => rfl
        | ok found' =>
          have hsub := List.Subset.trans (List.subset_append_left found [o]) (walk_subset hw)
          exact walk_eq_outcome path found' rest (walk_registered hw hr') (fun x hx => isFound_mono hsub (hpath x hx))
            (finished_close hfin hr' hw) hrest
termination_by (s.unfound path, todo.length)

theorem plainWalk_eq (s : Schema) :
    s.plainWalk = (s.documents.entries.flatMap fun d => pending d.name d.fields).flatMap (s.meetAt []) := by
  rw [plainWalk, List.flatMap_assoc]
  simp only [visitObjects_meet]

theorem meetAt_registered (path : List ObjectType) (p : Pending) :
    ∀ o, .object o ∈ s.meetAt path p → s.objects.get? o.name = some o := by
  intro o ho
  cases hget : s.objects.get? p.link.target with
  | none =>
    rw [meetAt_none hget, List.mem_singleton] at ho
    cases ho
  | some x =>
    rw [meetAt_some hget, List.mem_cons] at ho
    rcases ho with h | ho
    · cases h
      exact get?_name hget
    · cases hf : isFound path x with
      | true => rw [hf] at ho; cases ho
      | false =>
        rw [hf] at ho
        obtain ⟨q, _, ho⟩ := List.mem_flatMap.mp ho
        have := unfound_lt hget hf
        exact meetAt_registered (path ++ [x]) q o ho
termination_by s.unfound path

theorem plainWalk_registered {o : ObjectType} (h : .object o ∈ s.plainWalk) : s.objects.get? o.name = some o := by
  rw [plainWalk_eq] at h
  obtain ⟨p, _, h⟩ := List.mem_flatMap.mp h
  exact meetAt_registered [] p o h

/-- Collecting the objects gives the first reference to nothing that the plain walk meets, or
else the objects it meets, in the order in which it meets them first. They are told apart by
name: those met under one name are the same. -/
theorem collect_eq_plainWalk (s : Schema) :
    (s.collect = match s.plainWalk.findSome? Meeting.error? with
      | some e => .error e
      | none => .ok (firstOccurrences (s.plainWalk.filterMap Meeting.object?))) ∧
    ∀ o o', .object o ∈ s.plainWalk → .object o' ∈ s.plainWalk → o.name = o'.name → o = o' := by
  constructor
  · have hobj : ∀ p ∈ s.documents.entries.flatMap fun d => pending d.name d.fields, p.link.table = .object := by
      intro p hp
      obtain ⟨d, _, hp⟩ := List.mem_flatMap.mp hp
      exact (mem_pending.mp hp).2.1
    rw [collect, walk_eq_outcome [] [] _ (by simp [Registered]) (fun _ h => h) (by simp [Finished]) hobj, ← plainWalk_eq,
      outcome_eq, List.nil_append, List.filter_eq_self.mpr (by simp [isFound])]
  · intro o o' ho ho' hname
    have h := plainWalk_registered ho
    rw [hname, plainWalk_registered ho'] at h
    exact (Option.some.inj h).symm

end Schema

end TypedContent

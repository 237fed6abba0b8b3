import TypedContent.Proofs.Canonical.Failure

/-!
# What is collected

The walk is a machine whose state is what it has found and what it has still to follow. However
the objects refer to each other it stops, as a step into an object leaves fewer of them to find,
and a step over a reference leaves fewer to follow. It gives an answer if and only if each
reference to an object resolves, and then the answer is the objects that documents reach, each
once. References to documents play no part in it.
-/

namespace TypedContent

/-! ## Fields without references to documents -/

section
variable {Label : Type}

mutual

/-- The kind with plain text in place of each reference to a document. -/
def Kind.detach : Kind Label → Kind Label
  | .reference _ => .string
  | .inlineObject fields => .inlineObject (detach fields)
  | .list item => .list (detachItem item)
  | .polymorphicList items typeField => .polymorphicList (detachItems items) typeField
  | kind => kind

def detach : List (Field Label) → List (Field Label)
  | [] => []
  | ⟨a, kind⟩ :: rest => ⟨a, kind.detach⟩ :: detach rest

def detachItem : Item Label → Item Label
  | ⟨labelField, .inlineObject fields⟩ => ⟨labelField, .inlineObject (detach fields)⟩
  | item => item

def detachItems : List (Item Label) → List (Item Label)
  | [] => []
  | item :: rest => detachItem item :: detachItems rest

end

def objectLinks (ls : List Link) : List Link := ls.filter (·.table = .object)

theorem objectLinks_append (a b : List Link) : objectLinks (a ++ b) = objectLinks a ++ objectLinks b :=
  List.filter_append a b

mutual

theorem objectLinks_detach_kind (field : String) : ∀ kind : Kind Label,
    objectLinks (kind.detach.links field) = objectLinks (kind.links field)
  | .reference _ => by simp [Kind.detach, Kind.links, objectLinks]
  | .inlineObject fields => by rw [Kind.detach, Kind.links, Kind.links, objectLinks_detach fields]
  | .list item => by rw [Kind.detach, links_list, links_list, objectLinks_detachItem field item]
  | .polymorphicList items _ => by rw [Kind.detach, Kind.links, Kind.links, objectLinks_detachItems field items]
  | .string | .boolean | .number | .date | .markdown | .enum _ | .object _ | .other _ => by simp [Kind.detach]

theorem objectLinks_detach : ∀ fields : List (Field Label), objectLinks (links (detach fields)) = objectLinks (links fields)
  | [] => rfl
  | ⟨a, kind⟩ :: rest => by
    rw [detach, links, links, objectLinks_append, objectLinks_append, objectLinks_detach_kind a.name kind,
      objectLinks_detach rest]

theorem objectLinks_detachItem (field : String) : ∀ item : Item Label,
    objectLinks (itemLinks field [detachItem item]) = objectLinks (itemLinks field [item])
  | ⟨_, .inlineObject fields⟩ => by
    simp only [detachItem, itemLinks, List.append_nil, objectLinks_detach fields]
  | ⟨_, .object _⟩ | ⟨_, .string⟩ | ⟨_, .boolean⟩ | ⟨_, .enum _⟩ => by simp [detachItem]

theorem objectLinks_detachItems (field : String) : ∀ items : List (Item Label),
    objectLinks (itemLinks field (detachItems items)) = objectLinks (itemLinks field items)
  | [] => rfl
  | item :: rest => by
    rw [detachItems, itemLinks_cons, @itemLinks_cons _ item rest, objectLinks_append, objectLinks_append,
      objectLinks_detachItem field item, objectLinks_detachItems field rest]

end

end

def DocumentType.detach (d : DocumentType) : DocumentType := { d with fields := TypedContent.detach d.fields }

def ObjectType.detach (o : ObjectType) : ObjectType := { o with fields := TypedContent.detach o.fields }

namespace Schema

def detach (s : Schema) : Schema where
  documents := ⟨s.documents.kind, s.documents.entries.map DocumentType.detach⟩
  objects := ⟨s.objects.kind, s.objects.entries.map ObjectType.detach⟩

variable {s : Schema}

theorem pending_detach (owner : String) (fields : List SourceField) :
    pending owner (TypedContent.detach fields) = pending owner fields :=
  congrArg (List.map (Pending.mk owner)) (objectLinks_detach fields)

theorem get?_detach (s : Schema) (name : String) :
    s.detach.objects.get? name = (s.objects.get? name).map ObjectType.detach := List.find?_map

theorem isFound_detach (found : List ObjectType) (o : ObjectType) :
    isFound (found.map ObjectType.detach) o.detach = isFound found o := List.any_map

theorem walk_detach (found : List ObjectType) (todo : List Pending) :
    s.detach.walk (found.map ObjectType.detach) todo = (·.map ObjectType.detach) <$> s.walk found todo := by
  induction found, todo using walk_cases (s := s) with
  | nil found => rw [walk_nil, walk_nil]; rfl
  | missing found p rest ho => rw [walk_missing ho, walk_missing (by rw [get?_detach, ho]; rfl)]; rfl
  | again found p rest o ho hf ih =>
    have ho' : s.detach.objects.get? p.link.target = some o.detach := by rw [get?_detach, ho]; rfl
    rw [walk_again ho hf, walk_again ho' ((isFound_detach found o).trans hf), ih]
  | new found p rest o ho hf ih =>
    have ho' : s.detach.objects.get? p.link.target = some o.detach := by rw [get?_detach, ho]; rfl
    rw [List.map_append, List.map_singleton] at ih
    rw [walk_new ho hf, walk_new ho' ((isFound_detach found o).trans hf), ← ih, ObjectType.detach, pending_detach]

theorem collect_detach (s : Schema) : s.detach.collect = (·.map ObjectType.detach) <$> s.collect := by
  have hroots : (s.detach.documents.entries.flatMap fun d => pending d.name d.fields) =
      s.documents.entries.flatMap fun d => pending d.name d.fields := by
    rw [detach, List.flatMap_map]
    exact List.flatMap_congr fun d _ => pending_detach d.name d.fields
  rw [collect, hroots, collect, ← walk_detach, List.map_nil]

/-! ## The steps of the walk -/

/-- The objects found so far, and the references still to follow. -/
abbrev Walking : Type := List ObjectType × List Pending

def startWalk (s : Schema) : Walking := ([], s.documents.entries.flatMap fun d => pending d.name d.fields)

/-- The next reference leads to an object found before, or into a new one. A reference to nothing
leads nowhere. -/
inductive Step (s : Schema) : Walking → Walking → Prop
  | pass {found p rest o} : s.objects.get? p.link.target = some o → isFound found o = true →
    Step s (found, p :: rest) (found, rest)
  | enter {found p rest o} : s.objects.get? p.link.target = some o → isFound found o = false →
    Step s (found, p :: rest) (found ++ [o], pending o.name o.fields ++ rest)

theorem step_wellFounded (s : Schema) : WellFounded fun w' w => s.Step w w' := by
  have hlt : WellFounded fun m n : Nat => m < n := wellFounded_lt
  refine Subrelation.wf ?_ (InvImage.wf (fun w : Walking => (s.unfound w.1, w.2.length)) (hlt.prod_lex hlt))
  intro w' w h
  cases h with
  | pass => exact .right _ (Nat.lt_succ_self _)
  | enter ho hf => exact .left _ _ (unfound_lt ho hf)

abbrev Steps (s : Schema) : Walking → Walking → Prop := Relation.ReflTransGen s.Step

theorem steps_of_walk {found found' : List ObjectType} {todo : List Pending} :
    s.walk found todo = .ok found' → s.Steps (found, todo) (found', []) := by
  apply walk_induction (P := fun found todo => s.Steps (found, todo) (found', []))
  case done => exact .refl
  case again => exact fun _ _ _ _ ho hf _ ih => .head (.pass ho hf) ih
  case new => exact fun _ _ _ _ ho hf _ ih => .head (.enter ho hf) ih

theorem walk_of_step {w w' : Walking} (h : s.Step w w') : s.walk w.1 w.2 = s.walk w'.1 w'.2 := by
  cases h with
  | pass ho hf => exact walk_again ho hf _
  | enter ho hf => exact walk_new ho hf _

theorem walk_of_steps {w w' : Walking} (h : s.Steps w w') : s.walk w.1 w.2 = s.walk w'.1 w'.2 := by
  induction h with
  | refl => rfl
  | tail _ hstep ih => rw [ih, walk_of_step hstep]

theorem collect_iff_steps {found : List ObjectType} : s.collect = .ok found ↔ s.Steps s.startWalk (found, []) := by
  constructor
  · exact steps_of_walk
  · intro h
    have hwalk := walk_of_steps h
    rwa [walk_nil] at hwalk

/-! ## When it succeeds -/

theorem collect_ok_iff (s : Schema) : (∃ found, s.collect = .ok found) ↔ s.ObjectsResolved := by
  constructor
  · intro h
    obtain ⟨found, hc⟩ := h
    obtain ⟨hdocuments, hobjects⟩ := collect_leads hc
    have hknown : ∀ {p : Pending}, s.Leads found p → p.link.table = .object → s.Knows p.link := by
      intro p hp ht
      obtain ⟨o, -, ho⟩ := hp
      exact (knows_object ht).mpr ⟨o, ho⟩
    constructor
    case documents => exact fun d hd l hl ht => hknown (hdocuments d hd ⟨d.name, l⟩ (mem_pending_makes.mpr ⟨rfl, ht, hl⟩)) ht
    case objects =>
      intro o ho l hl ht
      have hmem := (reachable_of_collect hc o).mpr ho
      exact hknown (hobjects o hmem ⟨o.name, l⟩ (mem_pending_makes.mpr ⟨rfl, ht, hl⟩)) ht
  · exact collect_of_objectsResolved

/-- Whatever the objects refer to: the walk ends, and it collects objects if and only if every
reference to one resolves, in documents and in the objects that they reach. What it collects are
these objects, each once. Where the references to documents lead, or whether they are there at
all, makes no difference. -/
theorem collect_exact (s : Schema) :
    (WellFounded fun w' w => s.Step w w') ∧
      (∀ found, s.collect = .ok found ↔ s.Steps s.startWalk (found, [])) ∧
      ((∃ found, s.collect = .ok found) ↔ s.ObjectsResolved) ∧
      (∀ found, s.collect = .ok found → (found.map (·.name)).Nodup ∧ ∀ o, o ∈ found ↔ s.Reachable o) ∧
      s.detach.collect = (·.map ObjectType.detach) <$> s.collect := by
  refine ⟨step_wellFounded s, fun _ => collect_iff_steps, collect_ok_iff s, fun found hc => ?_, collect_detach s⟩
  exact ⟨collect_nodup hc, reachable_of_collect hc⟩

/-- The author and the company refer to each other, and no document reaches the team. -/
theorem blog_collected : ∃ found, (run blog).collect = .ok found ∧ found.map (·.name) = ["Author", "Company"] ∧
    (∀ o, o ∈ found ↔ (run blog).Reachable o) ∧ (run blog).ObjectsResolved := by
  have hnames : (·.map ObjectType.name) <$> (run blog).collect = .ok ["Author", "Company"] := by cbv
  obtain ⟨found, hc, hfound⟩ := map_eq_ok.mp hnames
  obtain ⟨-, -, hok, hall, -⟩ := collect_exact (run blog)
  exact ⟨found, hc, hfound, (hall found hc).2, hok.mp ⟨found, hc⟩⟩

end Schema

end TypedContent

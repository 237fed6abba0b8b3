import TypedContent.Proofs.Except
import TypedContent.Proofs.Field.Level
import TypedContent.Proofs.Table
import TypedContent.Schema.Walk

/-!
# The walk over object references

Each step of a walk that succeeds either passes over a reference to an object found before
or finds a new one. `walk_induction` puts this as an induction, from which the rest follows:
what is found stays found, and in the end every reference of an object found on the way
leads to an object that is found too.
-/

namespace TypedContent

namespace Schema

variable {s : Schema}

theorem mem_pending {owner : String} {fields : List SourceField} {p : Pending} :
    p ∈ pending owner fields ↔ p.owner = owner ∧ p.link.table = .object ∧ p.link ∈ links fields := by
  obtain ⟨owner', l⟩ := p
  simp only [pending, List.mem_map, List.mem_filter, decide_eq_true_eq, Pending.mk.injEq]
  constructor
  · intro h
    obtain ⟨l, ⟨hm, ht⟩, rfl, rfl⟩ := h
    exact ⟨rfl, ht, hm⟩
  · intro h
    obtain ⟨rfl, ht, hm⟩ := h
    exact ⟨l, ⟨hm, ht⟩, rfl, rfl⟩

theorem walk_nil (found : List ObjectType) : s.walk found [] = .ok found := by
  rw [walk]

theorem walk_missing {p : Pending} (h : s.objects.get? p.link.target = none) (found : List ObjectType)
    (rest : List Pending) : s.walk found (p :: rest) = .error (unresolved p.owner p.link) := by
  rw [walk]
  split
  · rfl
  · rename_i o ho; rw [h] at ho; cases ho

theorem walk_again {p : Pending} {o : ObjectType} (h : s.objects.get? p.link.target = some o)
    {found : List ObjectType} (hf : isFound found o = true) (rest : List Pending) :
    s.walk found (p :: rest) = s.walk found rest := by
  rw [walk]
  split
  · rename_i ho; rw [h] at ho; cases ho
  · rename_i o' ho
    rw [h] at ho; cases ho
    rw [dif_pos hf]

theorem walk_new {p : Pending} {o : ObjectType} (h : s.objects.get? p.link.target = some o)
    {found : List ObjectType} (hf : isFound found o = false) (rest : List Pending) :
    s.walk found (p :: rest) = s.walk (found ++ [o]) (pending o.name o.fields ++ rest) := by
  rw [walk]
  split
  · rename_i ho; rw [h] at ho; cases ho
  · rename_i o' ho
    rw [h] at ho; cases ho
    rw [dif_neg (by simp [hf])]

/-- Induction along a walk: over the references to come, with those of a new object in front
of the rest. -/
theorem walk_cases {P : List ObjectType → List Pending → Prop} (nil : ∀ found, P found [])
    (missing : ∀ found p rest, s.objects.get? p.link.target = none → P found (p :: rest))
    (again : ∀ found p rest o, s.objects.get? p.link.target = some o → isFound found o = true →
      P found rest → P found (p :: rest))
    (new : ∀ found p rest o, s.objects.get? p.link.target = some o → isFound found o = false →
      P (found ++ [o]) (pending o.name o.fields ++ rest) → P found (p :: rest))
    (found : List ObjectType) (todo : List Pending) : P found todo := by
  match todo with
  | [] => exact nil found
  | p :: rest =>
    cases ho : s.objects.get? p.link.target with
    | none => exact missing found p rest ho
    | some o =>
      cases hf : isFound found o with
      | true => exact again found p rest o ho hf (walk_cases nil missing again new found rest)
      | false =>
        have := unfound_lt ho hf
        exact new found p rest o ho hf (walk_cases nil missing again new _ _)
termination_by (s.unfound found, todo.length)

/-- Induction along a walk that succeeds, from its end. -/
theorem walk_induction {found' : List ObjectType} {P : List ObjectType → List Pending → Prop} (done : P found' [])
    (again : ∀ found p rest o, s.objects.get? p.link.target = some o → isFound found o = true →
      s.walk found rest = .ok found' → P found rest → P found (p :: rest))
    (new : ∀ found p rest o, s.objects.get? p.link.target = some o → isFound found o = false →
      s.walk (found ++ [o]) (pending o.name o.fields ++ rest) = .ok found' →
      P (found ++ [o]) (pending o.name o.fields ++ rest) → P found (p :: rest))
    (found : List ObjectType) (todo : List Pending) : s.walk found todo = .ok found' → P found todo := by
  induction found, todo using walk_cases (s := s) with
  | nil found => intro h; rw [walk_nil] at h; cases h; exact done
  | missing found p rest ho => intro h; rw [walk_missing ho] at h; cases h
  | again found p rest o ho hf ih => intro h; rw [walk_again ho hf] at h; exact again found p rest o ho hf h (ih h)
  | new found p rest o ho hf ih => intro h; rw [walk_new ho hf] at h; exact new found p rest o ho hf h (ih h)

theorem walk_append (found : List ObjectType) (a b : List Pending) :
    s.walk found (a ++ b) = s.walk found a >>= fun found' => s.walk found' b := by
  induction found, a using walk_cases (s := s) with
  | nil found => rw [walk_nil]; rfl
  | missing found p rest ho => rw [List.cons_append, walk_missing ho, walk_missing ho]; rfl
  | again found p rest o ho hf ih => rw [List.cons_append, walk_again ho hf, walk_again ho hf, ih]
  | new found p rest o ho hf ih =>
    rw [List.cons_append, walk_new ho hf, walk_new ho hf, ← List.append_assoc, ih]

theorem walk_subset {found found' : List ObjectType} {todo : List Pending} :
    s.walk found todo = .ok found' → found ⊆ found' := by
  apply walk_induction (P := fun found _ => found ⊆ found')
  case done => exact List.Subset.refl _
  case again => exact fun _ _ _ _ _ _ _ ih => ih
  case new => exact fun _ _ _ _ _ _ _ ih => List.Subset.trans (List.subset_append_left _ _) ih

/-! ## What is found -/

def Registered (s : Schema) (found : List ObjectType) : Prop := ∀ o ∈ found, s.objects.get? o.name = some o

theorem name_of_get? {name : String} {o : ObjectType} (h : s.objects.get? name = some o) : o.name = name :=
  (Table.get?_some h).2

theorem get?_name {name : String} {o : ObjectType} (h : s.objects.get? name = some o) :
    s.objects.get? o.name = some o := by
  rw [name_of_get? h, h]

theorem registered_append {found : List ObjectType} (hr : s.Registered found) {name : String} {o : ObjectType}
    (h : s.objects.get? name = some o) : s.Registered (found ++ [o]) := by
  intro x hx
  rcases List.mem_append.mp hx with hx | hx
  · exact hr x hx
  · rw [List.mem_singleton.mp hx]
    exact get?_name h

theorem mem_of_isFound {found : List ObjectType} (hr : s.Registered found) {name : String} {o : ObjectType}
    (h : s.objects.get? name = some o) (hf : isFound found o = true) : o ∈ found := by
  obtain ⟨x, hx, he⟩ := List.any_eq_true.mp hf
  have hxo := hr x hx
  rw [of_decide_eq_true he, get?_name h] at hxo
  cases hxo
  exact hx

theorem walk_registered {found found' : List ObjectType} {todo : List Pending} :
    s.walk found todo = .ok found' → s.Registered found → s.Registered found' := by
  apply walk_induction (P := fun found _ => s.Registered found → s.Registered found')
  case done => exact id
  case again => exact fun _ _ _ _ _ _ _ ih => ih
  case new => exact fun _ _ _ _ ho _ _ ih hr => ih (registered_append hr ho)

def Leads (s : Schema) (found : List ObjectType) (p : Pending) : Prop :=
  ∃ o ∈ found, s.objects.get? p.link.target = some o

/-- The references that were to come lead to objects that are found in the end, and so do
those of every object found on the way. -/
theorem walk_closed {found found' : List ObjectType} {todo : List Pending} :
    s.walk found todo = .ok found' → s.Registered found → (∀ p ∈ todo, s.Leads found' p) ∧
      ∀ o ∈ found', o ∈ found ∨ ∀ p ∈ pending o.name o.fields, s.Leads found' p := by
  apply walk_induction (P := fun found todo => s.Registered found → (∀ p ∈ todo, s.Leads found' p) ∧
    ∀ o ∈ found', o ∈ found ∨ ∀ p ∈ pending o.name o.fields, s.Leads found' p)
  case done => exact fun _ => ⟨by simp, fun o ho => Or.inl ho⟩
  case again =>
    intro found p rest o ho hf hw ih hr
    have hp : s.Leads found' p := ⟨o, walk_subset hw (mem_of_isFound hr ho hf), ho⟩
    exact ⟨List.forall_mem_cons.mpr ⟨hp, (ih hr).1⟩, (ih hr).2⟩
  case new =>
    intro found p rest o ho hf hw ih hr
    obtain ⟨htodo, hfound⟩ := ih (registered_append hr ho)
    have hp : s.Leads found' p := ⟨o, walk_subset hw (by simp), ho⟩
    refine ⟨List.forall_mem_cons.mpr ⟨hp, fun q hq => htodo q (List.mem_append_right _ hq)⟩, fun x hx => ?_⟩
    rcases hfound x hx with hx | hx
    · rcases List.mem_append.mp hx with hx | hx
      · exact Or.inl hx
      · rw [List.mem_singleton.mp hx]
        exact Or.inr fun q hq => htodo q (List.mem_append_left _ hq)
    · exact Or.inr hx

/-- What holds of the objects that references lead to, and passes from a found object on to
those it refers to, holds of all that are found. -/
theorem walk_forall {found found' : List ObjectType} {todo : List Pending} {Q : ObjectType → Prop}
    (onward : ∀ o ∈ found', Q o → ∀ p ∈ pending o.name o.fields, ∀ x, s.objects.get? p.link.target = some x → Q x) :
    s.walk found todo = .ok found' → (∀ o ∈ found, Q o) →
      (∀ p ∈ todo, ∀ o, s.objects.get? p.link.target = some o → Q o) → ∀ o ∈ found', Q o := by
  apply walk_induction (P := fun found todo => (∀ o ∈ found, Q o) →
    (∀ p ∈ todo, ∀ o, s.objects.get? p.link.target = some o → Q o) → ∀ o ∈ found', Q o)
  case done => exact fun hfound _ => hfound
  case again => exact fun _ _ _ _ _ _ _ ih hfound htodo => ih hfound (List.forall_mem_cons.mp htodo).2
  case new =>
    intro found p rest o ho hf hw ih hfound htodo
    obtain ⟨hp, hrest⟩ := List.forall_mem_cons.mp htodo
    have hQ := hp o ho
    refine ih ?_ ?_
    · intro x hx
      rcases List.mem_append.mp hx with hx | hx
      · exact hfound x hx
      · rw [List.mem_singleton.mp hx]; exact hQ
    · intro q hq
      rcases List.mem_append.mp hq with hq | hq
      · exact onward o (walk_subset hw (by simp)) hQ q hq
      · exact hrest q hq

theorem walk_nodup {found found' : List ObjectType} {todo : List Pending} :
    s.walk found todo = .ok found' → (found.map (·.name)).Nodup → (found'.map (·.name)).Nodup := by
  apply walk_induction (P := fun found _ => (found.map (·.name)).Nodup → (found'.map (·.name)).Nodup)
  case done => exact id
  case again => exact fun _ _ _ _ _ _ _ ih => ih
  case new =>
    intro found p rest o _ hf _ ih hn
    refine ih ?_
    rw [List.map_append, List.nodup_append]
    refine ⟨hn, by simp, fun name hname name' hname' e => ?_⟩
    obtain ⟨x, hx, rfl⟩ := List.mem_map.mp hname
    have hfound : isFound found o = true := List.any_eq_true.mpr ⟨x, hx, by simpa [e] using hname'⟩
    rw [hf] at hfound
    cases hfound

/-- The references of the documents lead to objects that are collected, and so do those of the
collected objects. -/
theorem collect_leads {found : List ObjectType} (h : s.collect = .ok found) :
    (∀ d ∈ s.documents.entries, ∀ p ∈ pending d.name d.fields, s.Leads found p) ∧
      ∀ o ∈ found, ∀ p ∈ pending o.name o.fields, s.Leads found p := by
  obtain ⟨htodo, hfound⟩ := walk_closed h (by simp [Registered])
  refine ⟨fun d hd p hp => htodo p (List.mem_flatMap.mpr ⟨d, hd, hp⟩), fun o ho => ?_⟩
  rcases hfound o ho with hn | hp
  · cases hn
  · exact hp

/-- A walk succeeds if each reference leads to an object whose references do so again. -/
theorem walk_succeeds {R : Pending → Prop}
    (onward : ∀ p, R p → ∃ o, s.objects.get? p.link.target = some o ∧ ∀ q ∈ pending o.name o.fields, R q)
    (found : List ObjectType) (todo : List Pending) (h : ∀ p ∈ todo, R p) :
    ∃ found', s.walk found todo = .ok found' := by
  induction found, todo using walk_cases (s := s) with
  | nil found => exact ⟨found, walk_nil found⟩
  | missing found p rest ho =>
    obtain ⟨o, ho', _⟩ := onward p (h p List.mem_cons_self)
    rw [ho] at ho'
    cases ho'
  | again found p rest o ho hf ih =>
    rw [walk_again ho hf]
    exact ih (List.forall_mem_cons.mp h).2
  | new found p rest o ho hf ih =>
    obtain ⟨o', ho', hinner⟩ := onward p (h p List.mem_cons_self)
    rw [ho] at ho'
    cases ho'
    rw [walk_new ho hf]
    refine ih fun q hq => ?_
    rcases List.mem_append.mp hq with hq | hq
    · exact hinner q hq
    · exact h q (List.mem_cons_of_mem _ hq)

end Schema

end TypedContent

import TypedContent.Proofs.Field.Distinct
import TypedContent.Proofs.Field.Order

/-!
# The first name that is written twice

A field repeats a name if an earlier field of its level has it. Where it does so is a place: the
index of a field, then the index of an inline object inside of it, and so on, down to the field
itself. By the order of places a field's own name comes first, then what is inside of the field,
then the next field. `checkNames` fails with what stands at the least place.
-/

namespace TypedContent

variable {Label ε β : Type}

/-- A name that a level has twice, and the names of the fields that lead to the level. -/
structure Repetition where
  path : List String
  name : String

inductive Repeats : List (Field Label) → List Nat → Repetition → Prop
  | here {fields i f} : fields[i]? = some f → f.name ∈ (fields.take i).map (·.name) → Repeats fields [i] ⟨[], f.name⟩
  | inside {fields i f k inner place path name} : fields[i]? = some f → f.kind.inlineFields[k]? = some inner →
    Repeats inner place ⟨path, name⟩ → Repeats fields (i :: k :: place) ⟨f.name :: path, name⟩

theorem Repeats.unique {fields : List (Field Label)} {place : List Nat} {r r' : Repetition}
    (h : Repeats fields place r) (h' : Repeats fields place r') : r = r' := by
  induction h generalizing r' with
  | here hf _ =>
    cases h' with
    | here hf' _ =>
      cases hf.symm.trans hf'
      rfl
  | inside hf hk _ ih =>
    cases h' with
    | inside hf' hk' h' =>
      cases hf.symm.trans hf'
      cases hk.symm.trans hk'
      cases ih h'
      rfl

theorem First.unique {R : List Nat → ε → Prop} {p : ε → Prop} {a b : ε} (ha : First R p a) (hb : First R p b)
    (hR : ∀ place, R place a → R place b → a = b) : a = b := by
  obtain ⟨place, hat, hpa, hleast⟩ := ha
  obtain ⟨place', hat', hpb, hleast'⟩ := hb
  have hle : ¬place' < place := fun hlt => hleast place' b hat' hlt hpb
  have hge : ¬place < place' := fun hlt => hleast' place a hat hlt hpa
  obtain rfl : place = place' := List.le_antisymm (List.not_lt.mp hle) (List.not_lt.mp hge)
  exact hR place hat hat'

/-! ## Checks by place -/

/-- A check that fails with what comes first by place, and passes only if there is nothing. -/
structure Reports (R : List Nat → ε → Prop) (check : Except ε Unit) : Prop where
  passes : check = .ok () → ∀ place e, ¬R place e
  fails : ∀ {e}, check = .error e → First R (fun _ => True) e

section
variable {R R' : List Nat → ε → Prop} {x y : Except ε Unit}

theorem reports_ok (h : ∀ place e, ¬R place e) : Reports R (.ok ()) := ⟨fun _ => h, fun he => by cases he⟩

theorem reports_error {e : ε} (h : R [] e) : Reports R (.error e) := by
  refine ⟨fun hok => (by cases hok), fun he => ?_⟩
  cases he
  exact ⟨[], h, trivial, fun earlier _ _ hlt => absurd hlt (List.not_lt_nil earlier)⟩

theorem Reports.congr (h : Reports R x) (hR : ∀ place e, R' place e ↔ R place e) : Reports R' x := by
  obtain rfl : R' = R := funext fun place => funext fun e => propext (hR place e)
  exact h

theorem Reports.error_iff {e : ε} (h : Reports R x) (hR : ∀ place a b, R place a → R place b → a = b) :
    x = .error e ↔ First R (fun _ => True) e := by
  refine ⟨h.fails, fun hfirst => ?_⟩
  cases x with
  | ok u =>
    obtain ⟨place, hat, -⟩ := hfirst
    exact absurd hat (h.passes rfl place e)
  | error e' => rw [(h.fails rfl).unique hfirst fun place => hR place e' e]

/-- Of two checks the first one is about what comes at an index, the other about what comes later. -/
theorem Reports.andThen {n : Nat} (hx : Reports R x) (hy : Reports R' y)
    (hlater : ∀ place e, R' place e → ∃ i rest, place = i :: rest ∧ n < i) :
    Reports (fun place e => (∃ rest, place = n :: rest ∧ R rest e) ∨ R' place e) (x >>= fun _ => y) := by
  cases x with
  | error e =>
    refine ⟨fun hok => (by cases hok), fun he => ?_⟩
    cases he
    obtain ⟨place, hat, -, hleast⟩ := hx.fails rfl
    refine ⟨n :: place, .inl ⟨place, rfl, hat⟩, trivial, fun earlier e' hat' hlt _ => ?_⟩
    rcases hat' with ⟨rest, rfl, hat'⟩ | hat'
    · exact hleast rest e' hat' (by simpa using hlt) trivial
    · obtain ⟨i, rest, rfl, hi⟩ := hlater earlier e' hat'
      rw [List.cons_lt_cons_iff] at hlt
      omega
  | ok u =>
    have hnone := hx.passes rfl
    refine ⟨fun hok place e hat => ?_, fun he => ?_⟩
    · rcases hat with ⟨rest, rfl, hat⟩ | hat
      · exact hnone rest e hat
      · exact hy.passes hok place e hat
    · obtain ⟨place, hat, -, hleast⟩ := hy.fails he
      refine ⟨place, .inr hat, trivial, fun earlier e' hat' hlt _ => ?_⟩
      rcases hat' with ⟨rest, rfl, hat'⟩ | hat'
      · exact hnone rest e' hat'
      · exact hleast earlier e' hat' hlt trivial

end

/-- A check of each element of a list, one after the other. -/
theorem reports_forM {R : β → List Nat → ε → Prop} {check : β → Except ε Unit} : ∀ {xs : List β} {n : Nat},
    (∀ x ∈ xs, Reports (R x) (check x)) → Reports (Indexed R n xs) (forM xs check)
  | [], _, _ => reports_ok fun place e h => by
    obtain ⟨i, x, rest, -, hx, -⟩ := h
    cases hx
  | x :: xs, n, h => by
    obtain ⟨hx, hxs⟩ := List.forall_mem_cons.mp h
    rw [List.forM_cons]
    refine (hx.andThen (reports_forM (n := n + 1) hxs) fun place e hat => ?_).congr fun place e => indexed_cons
    obtain ⟨i, y, rest, rfl, -, -⟩ := hat
    exact ⟨n + 1 + i, rest, rfl, by omega⟩

/-! ## Levels -/

theorem checkItemNames_eq (path : String) : ∀ items : List (Item Label),
    checkItemNames path items = forM (items.filterMap ItemOf.inlineFields?) (checkNames path [])
  | [] => by
    rw [checkItemNames]
    rfl
  | ⟨_, kind⟩ :: rest => by
    have ih := checkItemNames_eq path rest
    cases kind <;> simp [checkItemNames, List.filterMap_cons, ItemOf.inlineFields?, ih]

/-- What is inside of a field is checked level by level, in the order of its items. -/
theorem kind_checkNames_eq (path : String) (kind : Kind Label) :
    kind.checkNames path = forM kind.inlineFields (checkNames path []) := by
  cases kind with
  | list item =>
    obtain ⟨_, kind⟩ := item
    cases kind <;> simp [Kind.checkNames, Kind.inlineFields, Kind.items, ItemOf.inlineFields?] <;> rfl
  | polymorphicList items _ => exact checkItemNames_eq path items
  | inlineObject fields => simp [Kind.checkNames, Kind.inlineFields]
  | _ => rfl

/-- The fields of a level, each with the names that stand before it. -/
def withEarlier (earlier : List String) : List (Field Label) → List (List String × Field Label)
  | [] => []
  | f :: rest => (earlier, f) :: withEarlier (f.name :: earlier) rest

theorem getElem?_withEarlier : ∀ (fields : List (Field Label)) (earlier : List String) (i : Nat),
    (withEarlier earlier fields)[i]? =
      fields[i]?.map fun f => (((fields.take i).map (·.name)).reverse ++ earlier, f)
  | [], _, _ => rfl
  | f :: rest, earlier, 0 => rfl
  | f :: rest, earlier, i + 1 => by
    rw [withEarlier, List.getElem?_cons_succ, getElem?_withEarlier rest]
    simp

def checkField (owner : String) (f : List String × Field Label) : Except SchemaError Unit :=
  if f.2.name ∈ f.1 then .error (.duplicateField owner f.2.name)
  else forM f.2.kind.inlineFields (checkNames (owner ++ "." ++ f.2.name) [])

theorem checkNames_eq_forM (owner : String) : ∀ (fields : List (Field Label)) (seen : List String),
    checkNames owner seen fields = forM (withEarlier seen fields) (checkField owner)
  | [], seen => by
    rw [checkNames]
    rfl
  | ⟨a, kind⟩ :: rest, seen => by
    rw [checkNames, withEarlier, List.forM_cons, checkField]
    by_cases h : a.name ∈ seen
    · rw [if_pos h, if_pos h]
      rfl
    · rw [if_neg h, if_neg h, kind_checkNames_eq, checkNames_eq_forM owner rest]

/-! ## The error -/

/-- The error of a repetition in the fields of a definition: the owner is the path with dots. -/
def Repetition.error (owner : String) (r : Repetition) : SchemaError :=
  .duplicateField (".".intercalate (owner :: r.path)) r.name

theorem error_inside (owner field name : String) (path : List String) :
    Repetition.error (owner ++ "." ++ field) ⟨path, name⟩ = Repetition.error owner ⟨field :: path, name⟩ := rfl

def Repeated (owner : String) (fields : List (Field Label)) (place : List Nat) (e : SchemaError) : Prop :=
  ∃ r, Repeats fields place r ∧ r.error owner = e

theorem first_repeated_iff {owner : String} {fields : List (Field Label)} {e : SchemaError} :
    First (Repeated owner fields) (fun _ => True) e ↔
      ∃ r, First (Repeats fields) (fun _ => True) r ∧ e = r.error owner := by
  constructor
  · rintro ⟨place, ⟨r, hr, rfl⟩, -, hleast⟩
    refine ⟨r, ⟨place, hr, trivial, fun earlier r' hr' => ?_⟩, rfl⟩
    exact hleast earlier (r'.error owner) ⟨r', hr', rfl⟩
  · rintro ⟨r, ⟨place, hr, -, hleast⟩, rfl⟩
    refine ⟨place, ⟨r, hr, rfl⟩, trivial, fun earlier e' he' => ?_⟩
    obtain ⟨r', hr', -⟩ := he'
    exact hleast earlier r' hr'

/-- What a field with the given names before it repeats, by itself or inside. -/
inductive FieldRepeats (owner : String) (f : List String × Field Label) : List Nat → SchemaError → Prop
  | here : f.2.name ∈ f.1 → FieldRepeats owner f [] (.duplicateField owner f.2.name)
  | inside {place e} : Indexed (Repeated (owner ++ "." ++ f.2.name)) 0 f.2.kind.inlineFields place e →
    FieldRepeats owner f place e

theorem repeated_iff {owner : String} {fields : List (Field Label)} {place : List Nat} {e : SchemaError} :
    Repeated owner fields place e ↔ Indexed (FieldRepeats owner) 0 (withEarlier [] fields) place e := by
  constructor
  · intro h
    obtain ⟨r, hr, rfl⟩ := h
    cases hr with
    | @here _ i f hf hname =>
      refine ⟨i, (((fields.take i).map (·.name)).reverse ++ [], f), [], by simp, ?_, .here (by simpa using hname)⟩
      rw [getElem?_withEarlier, hf]
      rfl
    | @inside _ i f k inner place path name hf hk hr =>
      refine ⟨i, (((fields.take i).map (·.name)).reverse ++ [], f), k :: place, by simp, ?_, .inside ?_⟩
      · rw [getElem?_withEarlier, hf]
        rfl
      · exact ⟨k, inner, place, by simp, hk, ⟨path, name⟩, hr, error_inside ..⟩
  · intro h
    obtain ⟨i, f, rest, rfl, hf, h⟩ := h
    rw [getElem?_withEarlier, Option.map_eq_some_iff] at hf
    obtain ⟨f, hf, rfl⟩ := hf
    rw [Nat.zero_add]
    cases h with
    | here hname => exact ⟨⟨[], f.name⟩, .here hf (by simpa using hname), rfl⟩
    | inside h =>
      obtain ⟨k, inner, place, rfl, hk, ⟨path, name⟩, hr, rfl⟩ := h
      rw [Nat.zero_add]
      exact ⟨⟨f.name :: path, name⟩, .inside hf hk hr, rfl⟩

theorem reports_checkNames (fields : List (Field Label)) :
    ∀ owner, Reports (Repeated owner fields) (checkNames owner [] fields) := by
  induction fields using fields_induction with
  | step fields ih =>
    intro owner
    rw [checkNames_eq_forM]
    refine (reports_forM fun f hf => ?_).congr fun place e => repeated_iff
    have hmem : f.2 ∈ fields := by
      obtain ⟨i, hi⟩ := List.getElem?_of_mem hf
      rw [getElem?_withEarlier, Option.map_eq_some_iff] at hi
      obtain ⟨g, hg, rfl⟩ := hi
      exact List.mem_of_getElem? hg
    unfold checkField
    by_cases hname : f.2.name ∈ f.1
    · rw [if_pos hname]
      exact reports_error (.here hname)
    · rw [if_neg hname]
      have hinside : ∀ inner ∈ f.2.kind.inlineFields, Reports (Repeated (owner ++ "." ++ f.2.name) inner)
          (checkNames (owner ++ "." ++ f.2.name) [] inner) :=
        fun inner hin => ih f.2 hmem inner (mem_inlineFields.mp hin) _
      refine (reports_forM hinside).congr fun place e => ⟨fun h => ?_, .inside⟩
      cases h with
      | here h => exact absurd h hname
      | inside h => exact h

theorem checkNames_fails_iff {owner : String} {fields : List (Field Label)} :
    (∃ e, checkNames owner [] fields = .error e) ↔ ¬DistinctNames fields := by
  rw [← checkNames_iff fields owner]
  cases checkNames owner [] fields <;> simp

theorem checkNames_error_iff {owner : String} {fields : List (Field Label)} {e : SchemaError} :
    checkNames owner [] fields = .error e ↔ ∃ r, First (Repeats fields) (fun _ => True) r ∧ e = r.error owner := by
  rw [← first_repeated_iff]
  refine (reports_checkNames fields owner).error_iff fun place a b ha hb => ?_
  obtain ⟨r, hr, rfl⟩ := ha
  obtain ⟨r', hr', rfl⟩ := hb
  rw [hr.unique hr']

theorem distinctNames_single {f : Field Label} :
    DistinctNames [f] ↔ ∀ inner, f.kind.Holds inner → DistinctNames inner := by
  rw [distinctNames_iff]
  simp

/-- The items of a polymorphic list do not clash with each other. -/
theorem distinctNames_polymorphicList {a : Attributes Label} {items : List (Item Label)} {typeField : String} :
    DistinctNames [⟨a, .polymorphicList items typeField⟩] ↔ ∀ item ∈ items, DistinctNames [⟨a, .list item⟩] := by
  simp only [distinctNames_single, holds_iff, Kind.items, reduceCtorEq, false_or, List.mem_singleton, exists_eq_left]
  constructor
  · intro h item hitem inner hk
    exact h inner ⟨item, hitem, hk⟩
  · intro h inner hin
    obtain ⟨item, hitem, hk⟩ := hin
    exact h item hitem inner hk

/-- The check fails if and only if some level repeats a name. It fails with the first repetition: the
owner of the error is the path from the definition through the fields that lead to the level, with
dots, and the field is the name that is written twice. The items of a list are levels of their own,
so a list is accepted as soon as each of its items is. -/
theorem checkNames_first (owner : String) (fields : List (Field Label)) :
    ((∃ e, checkNames owner [] fields = .error e) ↔ ∃ level, Level fields level ∧ ¬(level.map (·.name)).Nodup) ∧
      (∀ e, checkNames owner [] fields = .error e ↔ ∃ r, First (Repeats fields) (fun _ => True) r ∧
        e = .duplicateField (".".intercalate (owner :: r.path)) r.name) ∧
      ∀ (a : Attributes Label) (items : List (Item Label)) (typeField : String),
        checkNames owner [] [⟨a, .polymorphicList items typeField⟩] = .ok () ↔
          ∀ item ∈ items, checkNames owner [] [⟨a, .list item⟩] = .ok () := by
  refine ⟨?_, fun e => checkNames_error_iff, fun a items typeField => ?_⟩
  · rw [checkNames_fails_iff, DistinctNames]
    simp
  · simp only [checkNames_iff]
    exact distinctNames_polymorphicList

/-- What is repeated inside of the first field comes before the name of the last one. -/
example : checkNames "Post" [] [
    ⟨⟨"cover", (), none, none, none, none, none⟩, .inlineObject [
      ⟨⟨"crops", (), none, none, none, none, none⟩, .list ⟨none, .inlineObject [
        ⟨⟨"x", (), none, none, none, none, none⟩, .number⟩, ⟨⟨"x", (), none, none, none, none, none⟩, .number⟩]⟩⟩]⟩,
    ⟨⟨"title", (), none, none, none, none, none⟩, .string⟩, ⟨⟨"title", (), none, none, none, none, none⟩, .string⟩] =
      .error (.duplicateField "Post.cover.crops" "x") := rfl

end TypedContent

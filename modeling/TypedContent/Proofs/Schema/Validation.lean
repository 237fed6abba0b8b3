import TypedContent.Proofs.Field.Distinct
import TypedContent.Proofs.Table
import TypedContent.Schema.Basic

/-!
# What the checks of a schema amount to

A schema is built by calls that add one definition each. `Schema.Valid` says what the
checks are for, without a word on their order. Every schema that is built is valid, and a
definition is accepted exactly if the schema that has it at the end of its table is.
-/

namespace TypedContent

/-! ## Valid schemas -/

structure DocumentType.Valid (d : DocumentType) : Prop where
  name_identifier : TypeScript.isIdentifier d.name = true
  distinct : DistinctNames d.fields
  computed_distinct : (d.computed.map (·.name)).Nodup
  computed_new : ∀ name ∈ d.computed.map (·.name), name ∉ d.fields.map (·.name)
  not_reserved : ∀ name ∈ d.fields.map (·.name) ++ d.computed.map (·.name),
    name ≠ TypeScript.idField ∧ name ≠ TypeScript.typeNameField

structure ObjectType.Valid (o : ObjectType) : Prop where
  name_identifier : TypeScript.isIdentifier o.name = true
  distinct : DistinctNames o.fields
  not_reserved : ∀ name ∈ o.fields.map (·.name), name ≠ TypeScript.typeNameField

namespace Schema

structure Valid (s : Schema) : Prop where
  documents_nodup : s.documents.names.Nodup
  objects_nodup : s.objects.names.Nodup
  disjoint : ∀ name ∈ s.documents.names, name ∉ s.objects.names
  documents : ∀ d ∈ s.documents.entries, d.Valid
  objects : ∀ o ∈ s.objects.entries, o.Valid

/-! ## Calls -/

/-- The schema with a definition at the end of its table, whether it is acceptable or not. -/
def append (s : Schema) : Addition → Schema
  | .document d => { s with documents := s.documents.append d }
  | .object o => { s with objects := s.objects.append o }

def run (calls : List Addition) : Schema := calls.foldl (fun s a => (s.perform a).2) .empty

/-! ## The checks one by one -/

theorem checkName_eq_ok {table : TableKind} {name : String} :
    checkName table name = .ok () ↔ TypeScript.isIdentifier name = true := by
  unfold checkName
  split <;> simp [*]

theorem checkReserved_eq_ok {owner : String} {reserved names : List String} :
    checkReserved owner reserved names = .ok () ↔ ∀ name ∈ names, name ∉ reserved := by
  unfold checkReserved
  cases h : names.find? (· ∈ reserved) with
  | none => simpa using h
  | some field =>
    have hm := List.mem_of_find?_eq_some h
    have hr := List.find?_some h
    simp only [reduceCtorEq, false_iff]
    intro hn
    exact hn field hm (by simpa using hr)

theorem checkComputed_eq_ok {owner : String} {names : List String} : ∀ {taken : List String},
    checkComputed owner taken names = .ok () ↔ names.Nodup ∧ ∀ name ∈ names, name ∉ taken := by
  induction names with
  | nil => intro taken; simp [checkComputed]
  | cons name rest ih =>
    intro taken
    rw [checkComputed, List.nodup_cons, List.forall_mem_cons]
    by_cases h : name ∈ taken
    · simp [h]
    · simp only [h, ite_false, ih, List.mem_cons, not_or]
      constructor
      · intro hall
        obtain ⟨hd, ht⟩ := hall
        exact ⟨⟨fun hm => (ht name hm).1 rfl, hd⟩, not_false, fun n hn => (ht n hn).2⟩
      · intro hall
        obtain ⟨⟨hm, hd⟩, -, ht⟩ := hall
        exact ⟨hd, fun n hn => ⟨fun e => hm (e ▸ hn), ht n hn⟩⟩

/-! ## Acceptance -/

/-- A definition fits a schema if it is valid itself and its name is new to both tables. -/
def Fits (s : Schema) : Addition → Prop
  | .document d => d.Valid ∧ d.name ∉ s.documents.names ∧ d.name ∉ s.objects.names
  | .object o => o.Valid ∧ o.name ∉ s.documents.names ∧ o.name ∉ s.objects.names

theorem result_onDocuments (call : Building (Table DocumentType) Unit) (s : Schema) :
    (onDocuments call).result s = (fun documents => { s with documents }) <$> call.result s.documents := by
  simp only [Building.result]
  have hrun : (onDocuments call).run.run s =
      ((call.run.run s.documents).1, { s with documents := (call.run.run s.documents).2 }) := rfl
  rw [hrun]
  rcases call.run.run s.documents with ⟨_ | _, _⟩ <;> rfl

theorem result_onObjects (call : Building (Table ObjectType) Unit) (s : Schema) :
    (onObjects call).result s = (fun objects => { s with objects }) <$> call.result s.objects := by
  simp only [Building.result]
  have hrun : (onObjects call).run.run s =
      ((call.run.run s.objects).1, { s with objects := (call.run.run s.objects).2 }) := rfl
  rw [hrun]
  rcases call.run.run s.objects with ⟨_ | _, _⟩ <;> rfl

theorem addDocument_eq_ok {s s' : Schema} {d : DocumentType} :
    s.addDocument d = .ok s' ↔ s.Fits (.document d) ∧ s.append (.document d) = s' := by
  simp only [addDocument, registerDocument, Building.result_check, Building.result_get, Building.result_ite,
    Building.result_throw, result_onDocuments]
  simp only [check_bind_eq_ok, guard_eq_ok, checkName_eq_ok, checkNames_iff, checkComputed_eq_ok,
    checkReserved_eq_ok, Table.contains_eq_true]
  simp only [map_eq_ok, Table.result_register, Table.insert_eq_ok]
  constructor
  · intro hall
    obtain ⟨hid, ho, hd, ⟨hc, hn⟩, hr, _, ⟨hs, rfl⟩, rfl⟩ := hall
    refine ⟨⟨⟨hid, hd, hc, hn, ?_⟩, hs, ho⟩, rfl⟩
    intro name hname
    simpa [documentReserved] using hr name hname
  · intro hall
    obtain ⟨⟨⟨hid, hd, hc, hn, hr⟩, hs, ho⟩, rfl⟩ := hall
    refine ⟨hid, ho, hd, ⟨hc, hn⟩, ?_, _, ⟨hs, rfl⟩, rfl⟩
    intro name hname
    simpa [documentReserved] using hr name hname

theorem addObject_eq_ok {s s' : Schema} {o : ObjectType} :
    s.addObject o = .ok s' ↔ s.Fits (.object o) ∧ s.append (.object o) = s' := by
  simp only [addObject, registerObject, Building.result_check, Building.result_get, Building.result_ite,
    Building.result_throw, result_onObjects]
  simp only [check_bind_eq_ok, guard_eq_ok, checkName_eq_ok, checkNames_iff, checkReserved_eq_ok,
    Table.contains_eq_true]
  simp only [map_eq_ok, Table.result_register, Table.insert_eq_ok]
  constructor
  · intro hall
    obtain ⟨hid, hs, hd, hr, _, ⟨ho, rfl⟩, rfl⟩ := hall
    refine ⟨⟨⟨hid, hd, ?_⟩, hs, ho⟩, rfl⟩
    intro name hname
    simpa [objectReserved] using hr name hname
  · intro hall
    obtain ⟨⟨⟨hid, hd, hr⟩, hs, ho⟩, rfl⟩ := hall
    refine ⟨hid, hs, hd, ?_, _, ⟨ho, rfl⟩, rfl⟩
    intro name hname
    simpa [objectReserved] using hr name hname

def add (s : Schema) (a : Addition) : Except SchemaError Schema := (register a).result s

theorem add_eq_ok {s s' : Schema} {a : Addition} : s.add a = .ok s' ↔ s.Fits a ∧ s.append a = s' := by
  cases a with
  | document d => exact addDocument_eq_ok
  | object o => exact addObject_eq_ok

/-! ## Refusal -/

theorem onDocuments_atomic {call : Building (Table DocumentType) Unit} (h : call.Atomic) : (onDocuments call).Atomic := by
  intro s e he
  exact congrArg (fun documents => { s with documents }) (h s.documents e he)

theorem onObjects_atomic {call : Building (Table ObjectType) Unit} (h : call.Atomic) : (onObjects call).Atomic := by
  intro s e he
  exact congrArg (fun objects => { s with objects }) (h s.objects e he)

theorem registerDocument_atomic (d : DocumentType) : (registerDocument d).Atomic := by
  refine Building.atomic_check fun _ => Building.atomic_get fun s => ?_
  refine Building.atomic_ite (Building.atomic_throw _ _) ?_
  refine Building.atomic_check fun _ => Building.atomic_check fun _ => Building.atomic_check fun _ => ?_
  exact onDocuments_atomic (Table.register_atomic d)

theorem registerObject_atomic (o : ObjectType) : (registerObject o).Atomic := by
  refine Building.atomic_check fun _ => Building.atomic_get fun s => ?_
  refine Building.atomic_ite (Building.atomic_throw _ _) ?_
  refine Building.atomic_check fun _ => Building.atomic_check fun _ => ?_
  exact onObjects_atomic (Table.register_atomic o)

theorem register_atomic (a : Addition) : (register a).Atomic := by
  cases a with
  | document d => exact registerDocument_atomic d
  | object o => exact registerObject_atomic o

theorem append_valid_iff {s : Schema} (h : s.Valid) (a : Addition) : (s.append a).Valid ↔ s.Fits a := by
  cases a with
  | document d =>
    constructor
    · intro hv
      have hn := (Table.nodup_append.mp hv.documents_nodup).2
      exact ⟨(Table.forall_append.mp hv.documents).2, hn, hv.disjoint d.name (by simp [append, Named.name])⟩
    · intro hfits
      obtain ⟨hd, hs, ho⟩ := hfits
      refine ⟨Table.nodup_append.mpr ⟨h.documents_nodup, hs⟩, h.objects_nodup, ?_, ?_, h.objects⟩
      · intro name hname
        rw [append, Table.names_append, List.mem_append, List.mem_singleton] at hname
        rcases hname with hm | rfl
        · exact h.disjoint name hm
        · exact ho
      · exact Table.forall_append.mpr ⟨h.documents, hd⟩
  | object o =>
    constructor
    · intro hv
      have hn := (Table.nodup_append.mp hv.objects_nodup).2
      refine ⟨(Table.forall_append.mp hv.objects).2, fun hs => hv.disjoint o.name hs ?_, hn⟩
      simp [append, Named.name]
    · intro hfits
      obtain ⟨ho, hs, hn⟩ := hfits
      refine ⟨h.documents_nodup, Table.nodup_append.mpr ⟨h.objects_nodup, hn⟩, ?_, h.documents, ?_⟩
      · intro name hname hm
        rw [append, Table.names_append, List.mem_append, List.mem_singleton] at hm
        rcases hm with hm | rfl
        · exact h.disjoint name hname hm
        · exact hs hname
      · exact Table.forall_append.mpr ⟨h.objects, ho⟩

theorem perform_of_fits {s : Schema} {a : Addition} (h : s.Fits a) : s.perform a = (.ok (), s.append a) :=
  Building.run_of_result (add_eq_ok.mpr ⟨h, rfl⟩)

theorem perform_of_not_fits {s : Schema} {a : Addition} (h : ¬s.Fits a) : ∃ e, s.perform a = (.error e, s) := by
  rcases hp : s.perform a with ⟨_ | _, s'⟩
  · rename_i e
    have hs : (s.perform a).2 = s := register_atomic a s e (congrArg Prod.fst hp)
    rw [hp] at hs
    exact ⟨e, congrArg _ hs⟩
  · have hadd : s.add a = .ok s' := by
      rw [add, Building.result, ← perform, hp]
    exact absurd (add_eq_ok.mp hadd).1 h

/-! ## Runs -/

theorem empty_valid : Schema.empty.Valid where
  documents_nodup := by simp [empty]
  objects_nodup := by simp [empty]
  disjoint := by simp [empty]
  documents := by simp [empty, Table.empty]
  objects := by simp [empty, Table.empty]

/-- What additions that fit preserve holds after any calls. -/
theorem run_induction {P : Schema → Prop} (hempty : P empty) (happend : ∀ s a, s.Fits a → P s → P (s.append a))
    (calls : List Addition) : P (run calls) := by
  have hstep : ∀ (s : Schema) (a : Addition), P s → P (s.perform a).2 := by
    intro s a hs
    by_cases hf : s.Fits a
    · rw [perform_of_fits hf]
      exact happend s a hf hs
    · obtain ⟨e, he⟩ := perform_of_not_fits hf
      rw [he]
      exact hs
  have hrun : ∀ s : Schema, P s → P (calls.foldl (fun s a => (s.perform a).2) s) := by
    induction calls with
    | nil => exact fun s hs => hs
    | cons a rest ih => exact fun s hs => ih _ (hstep s a hs)
  exact hrun empty hempty

theorem run_valid (calls : List Addition) : (run calls).Valid := by
  apply run_induction empty_valid
  intro s a hf hs
  exact (append_valid_iff hs a).mpr hf

/-- After any calls the schema is valid. A further call is accepted, and puts its definition
at the end of its table, exactly if that gives a valid schema; else it is refused and
changes nothing. -/
theorem validation_exact (calls : List Addition) :
    (run calls).Valid ∧ ∀ a : Addition,
      ((run calls).perform a = (.ok (), (run calls).append a) ↔ ((run calls).append a).Valid) ∧
        ((∃ e, (run calls).perform a = (.error e, run calls)) ↔ ¬((run calls).append a).Valid) := by
  refine ⟨run_valid calls, fun a => ?_⟩
  rw [append_valid_iff (run_valid calls)]
  by_cases h : (run calls).Fits a
  · simp [perform_of_fits h, h]
  · obtain ⟨e, he⟩ := perform_of_not_fits h
    simp [he, h]

end Schema

end TypedContent

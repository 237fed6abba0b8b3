import Mathlib
import TypedContent.Proofs.Field.Relabel
import TypedContent.Proofs.Field.Written
import TypedContent.Proofs.Schema.Validation

/-!
# What a schema that is read can hold

A field whose kind has a name of its own is not read as a kind of another name, and the values
that a field carries have each key once. So fields that are read can be told apart by what is
written of them. This is what the readers keep, at every depth; a schema that is built by calls
need not have it.
-/

namespace TypedContent

variable {Label : Type}

structure FieldOf.Unambiguous (f : Field Label) : Prop where
  other : ∀ name, f.kind = .other name → name ∉ Kind.knownNames
  default : ∀ v ∈ f.default, v.Keyed
  const : ∀ v ∈ f.const, v.Keyed

def UnambiguousFields (fields : List (Field Label)) : Prop := ∀ level, Level fields level → ∀ f ∈ level, f.Unambiguous

theorem unambiguousFields_iff {fields : List (Field Label)} : UnambiguousFields fields ↔
    (∀ f ∈ fields, f.Unambiguous) ∧ ∀ f ∈ fields, ∀ inner, f.kind.Holds inner → UnambiguousFields inner :=
  forall_level_iff

theorem unambiguousFields_nil : UnambiguousFields ([] : List (Field Label)) :=
  unambiguousFields_iff.mpr ⟨List.forall_mem_nil _, List.forall_mem_nil _⟩

structure Schema.Unambiguous (s : Schema) : Prop where
  documents : ∀ d ∈ s.documents.entries, UnambiguousFields d.fields
  objects : ∀ o ∈ s.objects.entries, UnambiguousFields o.fields

/-! ## What a record keeps -/

namespace Shape

variable {σ : Type} {shape : Shape σ} {P : σ → Prop}

def Keeps (shape : Shape σ) (P : σ → Prop) : Prop :=
  ∀ slot ∈ shape.slots, ∀ value t result, P value → slot.fill value t = .ok result → P result

theorem Keeps.members (h : shape.Keeps P) {members : List (Tree × Tree)} {value result : σ} (hvalue : P value)
    (hfold : members.foldlM shape.fillOne value = .ok result) : P result := by
  refine foldlM_invariant (fun member _ value next hvalue hone => ?_) hvalue hfold
  unfold fillOne at hone
  obtain ⟨key, -, hone⟩ := bind_eq_ok.mp hone
  split at hone
  · simp only [bind_eq_ok, pure_eq_ok] at hone
    obtain ⟨-, -, rfl⟩ := hone
    exact hvalue
  next slot hfind => exact h slot (List.mem_of_find?_eq_some hfind) value _ next hvalue hone

theorem Keeps.items (h : shape.Keeps P) {slots : List (Slot σ)} (hslots : slots ⊆ shape.slots) {stop : Option Fault}
    {count : Nat} {value result : σ} {items : List Tree} (hvalue : P value)
    (hread : shape.readArray stop slots count value items = .ok result) : P result := by
  induction slots generalizing count value items with
  | nil =>
    cases items with
    | nil =>
      simp only [readArray, orFault_eq_ok, Tree.unlessStop_eq_ok] at hread
      exact hread.2 ▸ hvalue
    | cons item items => cases hread
  | cons slot slots ih =>
    obtain ⟨hslot, hslots⟩ := List.cons_subset.mp hslots
    cases items with
    | cons item items =>
      simp only [readArray, bind_eq_ok] at hread
      obtain ⟨next, hfill, hread⟩ := hread
      exact ih hslots (h slot hslot value item next hvalue hfill) hread
    | nil =>
      simp only [readArray, bind_eq_ok] at hread
      obtain ⟨-, -, hread⟩ := hread
      split at hread
      · exact ih hslots hvalue hread
      · cases hread

theorem Keeps.read (h : shape.Keeps P) (hempty : P shape.empty) {levels : Nat} {t : Tree} {result : σ}
    (hread : readRecord levels shape t = .ok result) : P result := by
  cases t with
  | obj members stop =>
    rw [readRecord] at hread
    split at hread
    · cases hread
    · exact h.members hempty (readObject_eq_ok.mp hread).2.1
  | arr items stop =>
    rw [readRecord] at hread
    split at hread
    · cases hread
    · exact h.items (List.Subset.refl _) hempty hread
  | _ => cases hread

end Shape

theorem of_readNullable {α : Type} {read : Reader α} {t : Tree} {a : Option α} (h : readNullable read t = .ok a) :
    ∀ x ∈ a, read t = .ok x := by
  unfold readNullable at h
  split at h
  · cases h
    exact fun x hx => by cases hx
  · cases h
  · obtain ⟨x, hx, rfl⟩ := map_eq_ok.mp h
    rintro _ ⟨⟩
    exact hx

/-! ## Fields -/

def UnambiguousItems (items : List SourceItem) : Prop :=
  ∀ item ∈ items, ∀ inner, item.kind = .inlineObject inner → UnambiguousFields inner

structure WrittenField.Unambiguous (w : WrittenField) : Prop where
  default : ∀ v ∈ w.default, v.Keyed
  const : ∀ v ∈ w.const, v.Keyed
  fields : ∀ inner ∈ w.fields, UnambiguousFields inner
  of : ∀ d ∈ w.of, UnambiguousItems d.items

/-- A kind that is read has no name of a known kind, and what it holds has been read. -/
theorem WrittenField.Unambiguous.kind {w : WrittenField} (h : w.Unambiguous) {kind : Kind (Option String)}
    (hkind : w.kind = .ok kind) :
    (∀ name, kind = .other name → name ∉ Kind.knownNames) ∧ ∀ inner, kind.Holds inner → UnambiguousFields inner := by
  have hspells := WrittenField.kind_eq_ok.mp hkind
  cases kind with
  | inlineObject inner =>
    obtain ⟨-, rfl⟩ := hspells
    have hinner : UnambiguousFields (w.fields.getD []) := by
      cases hf : w.fields with
      | none => exact unambiguousFields_nil
      | some inner => exact h.fields inner hf
    simpa [holds_iff, Kind.items] using hinner
  | list item =>
    have hitems : UnambiguousItems [item] := h.of _ hspells.2
    simpa [holds_iff, Kind.items, UnambiguousItems] using hitems
  | polymorphicList items typeField =>
    obtain ⟨-, ⟨d, hof, rfl⟩, -⟩ := hspells
    have hitems := h.of d hof
    simp only [holds_iff, Kind.items, reduceCtorEq, false_or, false_implies, implies_true, true_and]
    rintro inner ⟨item, hm, hk⟩
    exact hitems item hm inner hk
  | other name =>
    obtain ⟨hnew, rfl⟩ := hspells
    simp [holds_iff, Kind.items, hnew]
  | _ => simp [holds_iff, Kind.items]

theorem WrittenField.Unambiguous.toFields {entries : List (String × WrittenField)} (h : ∀ e ∈ entries, e.2.Unambiguous)
    {fields : List SourceField} (hfields : TypedContent.toFields entries = .ok fields) : UnambiguousFields fields := by
  rw [unambiguousFields_iff]
  induction entries generalizing fields with
  | nil =>
    cases hfields
    exact ⟨List.forall_mem_nil _, List.forall_mem_nil _⟩
  | cons e rest ih =>
    obtain ⟨he, hrest⟩ := List.forall_mem_cons.mp h
    rw [TypedContent.toFields, WrittenField.toField] at hfields
    cases hkind : e.2.kind with
    | error flaw =>
      rw [hkind] at hfields
      cases hfields
    | ok kind =>
      simp only [hkind, bind_eq_ok, pure_eq_ok] at hfields
      obtain ⟨fields, hfields, rfl⟩ := hfields
      obtain ⟨hother, hinside⟩ := he.kind hkind
      obtain ⟨htop, hinner⟩ := ih hrest hfields
      exact ⟨List.forall_mem_cons.mpr ⟨⟨hother, he.default, he.const⟩, htop⟩, List.forall_mem_cons.mpr ⟨hinside, hinner⟩⟩

section
variable {levels : Nat} {fields inArray alone : Reader (List SourceField)} {descriptors : Reader Descriptors}

theorem keyed_of_readJson {t : Tree} {v : Json} (h : readJson levels t = .ok v) : v.Keyed :=
  (Tree.keep_nested (orFault_eq_ok.mp h)).2

theorem fieldShape_keeps (hfields : ∀ t inner, fields t = .ok inner → UnambiguousFields inner)
    (hdescriptors : ∀ t d, descriptors t = .ok d → UnambiguousItems d.items) :
    (fieldShape levels fields descriptors).Keeps WrittenField.Unambiguous := by
  simp only [Shape.Keeps, fieldShape, List.forall_mem_cons, List.not_mem_nil, false_implies, implies_true, and_true,
    nullableSlot, map_eq_ok]
  refine ⟨?type, ?label, ?description, ?default, ?required, ?const, ?hidden, ?options, ?object, ?document, ?fields, ?of,
    ?typeField⟩
  case default =>
    rintro w t _ hw ⟨v, hv, rfl⟩
    exact { hw with default := fun x hx => keyed_of_readJson (of_readNullable hv x hx) }
  case const =>
    rintro w t _ hw ⟨v, hv, rfl⟩
    exact { hw with const := fun x hx => keyed_of_readJson (of_readNullable hv x hx) }
  case fields =>
    rintro w t _ hw ⟨inner, hinner, rfl⟩
    exact { hw with fields := fun x hx => hfields t x (of_readNullable hinner x hx) }
  case of =>
    rintro w t _ hw ⟨d, hd, rfl⟩
    exact { hw with of := fun x hx => hdescriptors t x (of_readNullable hd x hx) }
  all_goals
    rintro w t _ hw ⟨_, -, rfl⟩
    exact ⟨hw.default, hw.const, hw.fields, hw.of⟩

theorem of_readDescriptor (hfields : ∀ t inner, fields t = .ok inner → UnambiguousFields inner) {t : Tree}
    {item : SourceItem}
    (h : readDescriptor levels fields t = some item) {inner : List SourceField} (hk : item.kind = .inlineObject inner) :
    UnambiguousFields inner := by
  obtain ⟨members, -, -, -, hkind⟩ := readDescriptor_eq_some.mp h
  rw [hk] at hkind
  unfold descriptorKind? at hkind
  split at hkind
  · split at hkind
    all_goals simp [readOnce_eq_some] at hkind
    obtain ⟨t, -, ht⟩ := hkind
    exact hfields t inner ht
  · cases hkind

theorem of_describe (hin : ∀ t inner, inArray t = .ok inner → UnambiguousFields inner)
    (halone : ∀ t inner, alone t = .ok inner → UnambiguousFields inner) {t : Tree} {d : Descriptors}
    (h : describe levels inArray alone t = .ok d) : UnambiguousItems d.items := by
  obtain ⟨-, ⟨items, -, many, -, rfl, hmany⟩ | ⟨-, -, item, -, rfl, hone⟩⟩ := describe_eq_ok.mp h
  · exact ((List.forall₂_and_left _ _).mp (hmany.flip.imp fun _ _ h => ⟨fun inner hk => of_readDescriptor hin h hk, h⟩)).1
  · intro item hm inner hk
    rw [List.mem_singleton.mp hm] at hk
    exact of_readDescriptor halone hone hk

end

/-! ## All fields -/

def Reader.Unambiguous (read : Reader (List SourceField)) : Prop :=
  ∀ t fields, read t = .ok fields → UnambiguousFields fields

theorem malformed_unambiguous : Reader.Unambiguous fun _ => malformed := fun _ _ h => by cases h

theorem readDescriptors_unambiguous {levels : Nat} (hread : ∀ n ≤ levels, Reader.Unambiguous (readFields n)) {t : Tree}
    {d : Descriptors} (h : readDescriptors levels t = .ok d) : UnambiguousItems d.items := by
  rw [readDescriptors_eq] at h
  exact of_describe (hread _ (by omega)) (hread _ (by omega)) h

theorem readField_unambiguous {levels : Nat} (hread : ∀ n < levels, Reader.Unambiguous (readFields n)) {t : Tree}
    {w : WrittenField} (h : readField levels t = .ok w) : w.Unambiguous := by
  have hempty : ({} : WrittenField).Unambiguous := by constructor <;> simp
  cases levels with
  | zero => exact (fieldShape_keeps malformed_unambiguous fun _ _ h => by cases h).read hempty h
  | succ levels =>
    have hdescriptors : ∀ t d, readDescriptors levels t = .ok d → UnambiguousItems d.items :=
      fun t d hd => readDescriptors_unambiguous (fun n hn => hread n (by omega)) hd
    exact (fieldShape_keeps (hread levels (by omega)) hdescriptors).read hempty h

theorem readFields_unambiguous (levels : Nat) : Reader.Unambiguous (readFields levels) := by
  -- a field is read with one level less, and the descriptors inside it with even fewer
  induction levels using Nat.strong_induction_on with
  | _ levels ih =>
    intro t fields h
    cases levels with
    | zero =>
      obtain ⟨entries, hentries, -⟩ := bind_eq_ok.mp h
      exact absurd rfl (readDefinitions_eq_ok.mp hentries).1
    | succ levels =>
      obtain ⟨entries, hentries, hfields⟩ := bind_eq_ok.mp h
      obtain ⟨-, members, -, hall⟩ := readDefinitions_eq_ok.mp hentries
      refine WrittenField.Unambiguous.toFields ?_ hfields
      refine ((List.forall₂_and_left _ _).mp (hall.flip.imp fun e m h => ⟨?_, h⟩)).1
      exact readField_unambiguous (fun n hn => ih n (by omega)) h.2

/-! ## Schemas -/

theorem documentShape_keeps (levels : Nat) : (documentShape levels).Keeps fun d => UnambiguousFields d.fields := by
  simp only [Shape.Keeps, documentShape, List.forall_mem_cons, List.not_mem_nil, false_implies, implies_true, and_true,
    nullableSlot, map_eq_ok]
  refine ⟨?label, ?description, ?labelField, ?fileType, ?isSingleton, ?fields, ?computedFields⟩
  case fields =>
    rintro d t _ hd ⟨fields, hfields, rfl⟩
    exact readFields_unambiguous levels t fields hfields
  all_goals
    rintro d t _ hd ⟨_, -, rfl⟩
    exact hd

theorem objectShape_keeps (levels : Nat) : (objectShape levels).Keeps fun o => UnambiguousFields o.fields := by
  simp only [Shape.Keeps, objectShape, List.forall_mem_cons, List.not_mem_nil, false_implies, implies_true, and_true,
    nullableSlot, map_eq_ok]
  refine ⟨?label, ?description, ?labelField, ?fields⟩
  case fields =>
    rintro o t _ ho ⟨fields, hfields, rfl⟩
    exact readFields_unambiguous levels t fields hfields
  all_goals
    rintro o t _ ho ⟨_, -, rfl⟩
    exact ho

structure WrittenSchema.Unambiguous (w : WrittenSchema) : Prop where
  documents : ∀ e ∈ w.documents, UnambiguousFields e.2.fields
  objects : ∀ e ∈ w.objects, UnambiguousFields e.2.fields

theorem of_readDefinitions {α : Type} {P : α → Prop} {levels : Nat} {read : Reader α} {t : Tree}
    {entries : List (String × α)} (h : readDefinitions levels read t = .ok entries)
    (hread : ∀ t a, read t = .ok a → P a) : ∀ e ∈ entries, P e.2 := by
  obtain ⟨-, members, -, hall⟩ := readDefinitions_eq_ok.mp h
  exact ((List.forall₂_and_left _ _).mp (hall.flip.imp fun _ _ h => ⟨hread _ _ h.2, h⟩)).1

theorem schemaShape_keeps (levels : Nat) : (schemaShape levels).Keeps WrittenSchema.Unambiguous := by
  unfold Shape.Keeps schemaShape
  simp only [List.forall_mem_cons, List.not_mem_nil, false_implies, implies_true, and_true, map_eq_ok]
  constructor
  · rintro w t _ hw ⟨documents, hdocuments, rfl⟩
    have hread : ∀ t d, readRecord (levels - 1) (documentShape (levels - 2)) t = .ok d → UnambiguousFields d.fields :=
      fun t d hd => (documentShape_keeps _).read unambiguousFields_nil hd
    exact ⟨of_readDefinitions hdocuments hread, hw.objects⟩
  · rintro w t _ hw ⟨objects, hobjects, rfl⟩
    have hread : ∀ t o, readRecord (levels - 1) (objectShape (levels - 2)) t = .ok o → UnambiguousFields o.fields :=
      fun t o ho => (objectShape_keeps _).read unambiguousFields_nil ho
    exact ⟨hw.documents, of_readDefinitions hobjects hread⟩

namespace Schema

/-- What holds of the empty schema and is kept by definitions that fit holds of the schema that is
written. -/
theorem toSchema_induction {P : Schema → Prop} {w : WrittenSchema} {s : Schema} (hempty : P empty)
    (hobject : ∀ e ∈ w.objects, ∀ s, s.Fits (.object { e.2 with name := e.1 }) → P s →
      P (s.append (.object { e.2 with name := e.1 })))
    (hdocument : ∀ e ∈ w.documents, ∀ s, s.Fits (.document { e.2 with name := e.1 }) → P s →
      P (s.append (.document { e.2 with name := e.1 })))
    (h : w.toSchema = .ok s) : P s := by
  unfold WrittenSchema.toSchema at h
  obtain ⟨s₁, hobjects, hdocuments⟩ := bind_eq_ok.mp h
  have hs₁ : P s₁ := by
    refine foldlM_invariant (fun e he s s' hs hadd => ?_) hempty hobjects
    obtain ⟨hfits, rfl⟩ := addObject_eq_ok.mp hadd
    exact hobject e he s hfits hs
  refine foldlM_invariant (fun e he s s' hs hadd => ?_) hs₁ hdocuments
  obtain ⟨hfits, rfl⟩ := addDocument_eq_ok.mp hadd
  exact hdocument e he s hfits hs

theorem toSchema_unambiguous {w : WrittenSchema} (hw : w.Unambiguous) {s : Schema} (h : w.toSchema = .ok s) :
    s.Unambiguous := by
  refine toSchema_induction ⟨List.forall_mem_nil _, List.forall_mem_nil _⟩ ?_ ?_ h
  · intro e he s _ hs
    exact ⟨hs.documents, Table.forall_append.mpr ⟨hs.objects, hw.objects e he⟩⟩
  · intro e he s _ hs
    exact ⟨Table.forall_append.mpr ⟨hs.documents, hw.documents e he⟩, hs.objects⟩

theorem toSchema_valid {w : WrittenSchema} {s : Schema} (h : w.toSchema = .ok s) : s.Valid := by
  refine toSchema_induction empty_valid ?_ ?_ h <;>
    exact fun _ _ _ hfits hs => (append_valid_iff hs _).mpr hfits

theorem written_of_ofText {text : String} {s : Schema} (h : ofText text = .ok s) : ∃ w,
    readRecord nestingLimit (schemaShape (nestingLimit - 1)) (Tree.ofText text.toList).1 = .ok w ∧ w.toSchema = .ok s := by
  obtain ⟨hread, -⟩ := readText_eq_ok.mp h
  unfold readSchema at hread
  obtain ⟨w, hw, hread⟩ := bind_eq_ok.mp hread
  refine ⟨w, hw, ?_⟩
  split at hread
  · cases hread
    assumption
  · cases hread

theorem ofText_valid {text : String} {s : Schema} (h : ofText text = .ok s) : s.Valid := by
  obtain ⟨w, -, hw⟩ := written_of_ofText h
  exact toSchema_valid hw

theorem ofText_unambiguous {text : String} {s : Schema} (h : ofText text = .ok s) : s.Unambiguous := by
  obtain ⟨w, hread, hw⟩ := written_of_ofText h
  have hempty : ({} : WrittenSchema).Unambiguous := ⟨List.forall_mem_nil _, List.forall_mem_nil _⟩
  exact toSchema_unambiguous ((schemaShape_keeps _).read hempty hread) hw

end Schema

end TypedContent

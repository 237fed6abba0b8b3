import Mathlib
import TypedContent.Proofs.Field.Form
import TypedContent.Proofs.Schema.Buffered

/-!
# Written fields read back

`readFields` reads written fields back. It goes by `fields_induction`: a field is read as soon as
the fields of its inline objects are, wherever these stand.
-/

namespace TypedContent

open Json (strings)

/-! ## A field before its kind is known -/

/-- What a field has to say of itself to be of a kind. -/
def WrittenField.Spells (w : WrittenField) : Kind (Option String) → Prop
  | .string => w.type = "string"
  | .boolean => w.type = "boolean"
  | .number => w.type = "number"
  | .date => w.type = "date"
  | .markdown => w.type = "markdown"
  | .enum options => w.type = "enum" ∧ w.options = some options
  | .object target => w.type = "object" ∧ w.object = some target
  | .inlineObject fields => w.type = "inline_object" ∧ w.fields.getD [] = fields
  | .reference target => w.type = "reference" ∧ w.document = some target
  | .list item => w.type = "list" ∧ w.of = some (.one item)
  | .polymorphicList items typeField =>
    w.type = "polymorphic_list" ∧ (∃ d, w.of = some d ∧ d.items = items) ∧ w.typeField = some typeField
  | .other name => w.type ∉ Kind.knownNames ∧ w.type = name

theorem WrittenField.spells_of_kind {w : WrittenField} {kind : Kind (Option String)} (h : w.kind = .ok kind) :
    w.Spells kind := by
  unfold WrittenField.kind at h
  split at h
  all_goals try split at h
  all_goals
    simp only [map_eq_ok, require_eq_ok, bind_eq_ok, pure_eq_ok, Except.ok.injEq, reduceCtorEq, exists_eq_left', false_and,
      exists_false] at h
  all_goals first
    | grind [WrittenField.Spells, Descriptors.items]
    | simp_all [WrittenField.Spells, Kind.knownNames, ← h]

theorem WrittenField.kind_of_spells {w : WrittenField} {kind : Kind (Option String)} (h : w.Spells kind) :
    w.kind = .ok kind := by
  unfold WrittenField.kind
  cases kind with
  | list item => simp only [h.1, h.2]
  | polymorphicList items typeField =>
    obtain ⟨htype, ⟨d, hof, rfl⟩, htypeField⟩ := h
    cases d <;> simp only [htype, hof, htypeField] <;> rfl
  | other name =>
    obtain ⟨hnew, rfl⟩ := h
    simp only [Kind.knownNames, List.mem_cons, List.not_mem_nil, or_false, not_or] at hnew
    split <;> first | rfl | (exfalso; tauto)
  | enum | object | reference => simp only [h.1, h.2]; rfl
  | inlineObject => simp only [h.1, h.2]
  | _ => simp only [show w.type = _ from h]

theorem WrittenField.kind_eq_ok {w : WrittenField} {kind : Kind (Option String)} : w.kind = .ok kind ↔ w.Spells kind :=
  ⟨spells_of_kind, kind_of_spells⟩

def Attributes.raw (a : Attributes (Option String)) (type : String) : WrittenField where
  type := type
  label := a.label
  description := a.description
  default := a.default
  required := a.required
  const := a.const
  hidden := a.hidden

/-- What a kind adds to the attributes. -/
def Kind.raw (w : WrittenField) : Kind (Option String) → WrittenField
  | .enum options => { w with options := some options }
  | .object target => { w with object := some target }
  | .inlineObject fields => { w with fields := some fields }
  | .reference target => { w with document := some target }
  | .list item => { w with of := some (.one item) }
  | .polymorphicList items typeField => { w with of := some (.many items), typeField := some typeField }
  | _ => w

def FieldOf.raw (f : SourceField) : WrittenField := f.kind.raw (f.toAttributes.raw f.kind.typeName)

theorem toField_raw {f : SourceField} (h : f.Plain) : f.raw.toField f.name = .ok f := by
  obtain ⟨a, kind⟩ := f
  cases kind with
  | other name =>
    -- the one kind that is not known by its own name
    have hkind : (FieldOf.raw ⟨a, .other name⟩).kind = .ok (.other name) := WrittenField.kind_of_spells ⟨h.other name rfl, rfl⟩
    rw [WrittenField.toField, hkind]
    rfl
  | _ => rfl

theorem toFields_eq_ok {entries : List (String × WrittenField)} {fields : List SourceField} :
    toFields entries = .ok fields ↔ List.Forall₂ (fun e f => e.2.toField e.1 = .ok f) entries fields := by
  induction entries generalizing fields with
  | nil => simp [toFields, eq_comm]
  | cons e rest ih =>
    obtain ⟨name, w⟩ := e
    rw [toFields, List.forall₂_cons_left_iff]
    cases hf : w.toField name with
    | error flaw => simp
    | ok f =>
      simp only [bind_eq_ok, pure_eq_ok, ih, Except.ok.injEq]
      constructor
      · rintro ⟨fields, hrest, rfl⟩
        exact ⟨f, fields, rfl, hrest, rfl⟩
      · rintro ⟨_, fields, rfl, hrest, rfl⟩
        exact ⟨fields, hrest, rfl⟩

theorem toFields_raw {fields : List SourceField} (h : ∀ f ∈ fields, f.Plain) :
    toFields (fields.map fun f => (f.name, f.raw)) = .ok fields := by
  rw [toFields_eq_ok, List.forall₂_map_left_iff, List.forall₂_same]
  exact fun f hf => toField_raw (h f hf)

/-! ## One field -/

section
variable {levels : Nat} {fields : Reader (List SourceField)} {descriptors : Reader Descriptors}

theorem fieldShape_lawful (levels : Nat) (fields : Reader (List SourceField)) (descriptors : Reader Descriptors) :
    (fieldShape levels fields descriptors).Lawful where
  nodup := by simp [fieldShape, nullableSlot]
  commute := by
    unfold fieldShape nullableSlot
    simp only [List.pairwise_cons, List.forall_mem_cons, List.not_mem_nil, false_implies, implies_true, List.Pairwise.nil,
      and_true]
    repeat' apply And.intro
    all_goals exact commute_of_store fun _ _ _ => rfl

theorem fieldShape_fields (levels : Nat) (fields : Reader (List SourceField)) (descriptors : Reader Descriptors) :
    nullableSlot "fields" fields ({ · with fields := · }) ∈ (fieldShape levels fields descriptors).slots := by
  simp [fieldShape]

theorem fieldShape_of (levels : Nat) (fields : Reader (List SourceField)) (descriptors : Reader Descriptors) :
    nullableSlot "of" descriptors ({ · with of := · }) ∈ (fieldShape levels fields descriptors).slots := by
  simp [fieldShape]

theorem fills_attributes {a : Attributes (Option String)} (type : String)
    (hdefault : ∀ v ∈ a.default, v ≠ .null ∧ v.Keyed ∧ v.Nested levels)
    (hconst : ∀ v ∈ a.const, v ≠ .null ∧ v.Keyed ∧ v.Nested levels) {members : List (String × Json)}
    {result : WrittenField}
    (h : Shape.Fills ((fieldShape levels fields descriptors).slots.drop 7) (a.raw type) members result) :
    Shape.Fills (fieldShape levels fields descriptors).slots {} (("type", .str type) :: (a.write ++ members)) result := by
  unfold Attributes.write
  simp only [List.append_assoc]
  refine .fill rfl ?_
  refine fills_optional rfl (readString_optional a.label) rfl ?_
  refine fills_optional rfl (readString_optional a.description) rfl ?_
  refine fills_optional Option.map_id'.symm (readJson_optional hdefault) rfl ?_
  refine fills_optional rfl (readBool_optional a.required) rfl ?_
  refine fills_optional Option.map_id'.symm (readJson_optional hconst) rfl ?_
  exact fills_optional rfl (readBool_optional a.hidden) rfl h

/-- The slots of a kind's members are filled from what the kind holds. -/
theorem fills_kind (form : Form) (w : WrittenField) (kind : Kind (Option String))
    (henum : ∀ options, kind = .enum options → levels ≠ 0)
    (hfields : ∀ inner, kind = .inlineObject inner → fields (Json.obj (writeFields form inner)).tree = .ok inner)
    (hone : ∀ item, kind = .list item → descriptors (writeItem form item).tree = .ok (.one item))
    (hmany : ∀ items typeField, kind = .polymorphicList items typeField →
      descriptors (Json.arr (writeItems form items)).tree = .ok (.many items)) :
    Shape.Fills ((fieldShape levels fields descriptors).slots.drop 7) w (kind.write form) (kind.raw w) := by
  cases kind with
  | enum options =>
    refine fills_nullable (by simp [strings]) (readStrings_tree (henum options rfl) options) ?_
    exact fills_skip (fills_skip (fills_skip (fills_skip (fills_skip .nil))))
  | object target =>
    refine fills_skip (fills_nullable (by simp) (readString_tree target) ?_)
    exact fills_skip (fills_skip (fills_skip (fills_skip .nil)))
  | reference target =>
    refine fills_skip (fills_skip (fills_nullable (by simp) (readString_tree target) ?_))
    exact fills_skip (fills_skip (fills_skip .nil))
  | inlineObject inner =>
    refine fills_skip (fills_skip (fills_skip (fills_nullable (by simp) (hfields inner rfl) ?_)))
    exact fills_skip (fills_skip .nil)
  | list item =>
    refine fills_skip (fills_skip (fills_skip (fills_skip (fills_nullable ?_ (hone item rfl) (fills_skip .nil)))))
    simp [Form.record]
  | polymorphicList items typeField =>
    refine fills_skip (fills_skip (fills_skip (fills_skip (fills_nullable (by simp) (hmany items typeField rfl) ?_))))
    exact fills_nullable (by simp) (readString_tree typeField) .nil
  | _ => exact fills_skip (fills_skip (fills_skip (fills_skip (fills_skip (fills_skip .nil)))))

/-! ## Items -/

theorem valuesOf_memberTrees (key : String) (members : List (String × Json)) :
    valuesOf key (Json.memberTrees members) = (members.filter (·.1 = key)).map (·.2.tree) := by
  induction members with
  | nil => rfl
  | cons m rest ih =>
    obtain ⟨k, v⟩ := m
    rw [Json.memberTrees, valuesOf, ih, List.filter_cons]
    by_cases h : k = key <;> simp [h]

theorem valuesOf_perm {members written : List (String × Json)} (hperm : written.Perm members)
    (hn : (members.map Prod.fst).Nodup) (key : String) :
    valuesOf key (Json.memberTrees written) = valuesOf key (Json.memberTrees members) := by
  rw [valuesOf_memberTrees, valuesOf_memberTrees]
  have hfilter := hperm.filter (·.1 = key)
  have hone : ((members.filter (·.1 = key)).map Prod.fst).Nodup := (List.filter_sublist.map Prod.fst).nodup hn
  have hkey : ∀ m ∈ members.filter (·.1 = key), m.1 = key := fun m hm => by simpa using (List.mem_filter.mp hm).2
  cases hm : members.filter (·.1 = key) with
  | nil =>
    rw [hm] at hfilter
    rw [List.perm_nil.mp hfilter]
  | cons m rest =>
    rw [hm] at hfilter hone hkey
    cases rest with
    | nil => rw [List.perm_singleton.mp hfilter]
    | cons m' rest =>
      have hsame : m.1 = m'.1 := (hkey m (by simp)).trans (hkey m' (by simp)).symm
      simp [hsame] at hone

theorem readDescriptor_perm {members written : List (String × Json)} (hperm : written.Perm members)
    (hn : (members.map Prod.fst).Nodup) :
    readDescriptor levels fields (Json.obj written).tree = readDescriptor levels fields (Json.obj members).tree := by
  simp only [Json.tree, readDescriptor, readOptional, readOnce, valuesOf_perm hperm hn]

theorem readDescriptor_write (form : Form) {item : SourceItem} (hn : (writeItem form item).Nested levels)
    (hfields : ∀ inner, item.kind = .inlineObject inner → fields (Json.obj (writeFields form inner)).tree = .ok inner) :
    readDescriptor levels fields (writeItem form item).tree = some item := by
  obtain ⟨-, hmembers⟩ := form.nested_record hn
  have hkeys : ((itemMembers form item).map Prod.fst).Nodup := by
    obtain ⟨_ | labelField, kind⟩ := item <;> cases kind <;> simp [itemMembers, Json.optional]
  unfold writeItem Form.record
  rw [readDescriptor_perm (form.order_perm _) hkeys]
  obtain ⟨labelField, kind⟩ := item
  cases kind with
  | string => cases labelField <;> rfl
  | boolean => cases labelField <;> rfl
  | object target => cases labelField <;> rfl
  | enum options =>
    have hlevels : levels - 1 ≠ 0 := by
      have hoptions := hmembers ("options", strings options) (by simp [itemMembers])
      cases hl : levels - 1 with
      | zero =>
        rw [hl] at hoptions
        cases hoptions
      | succ n => exact Nat.succ_ne_zero n
    have hread : readDescriptor levels fields (Json.obj (itemMembers form ⟨labelField, .enum options⟩)).tree =
        (ItemKind.enum <$> (readSequence (levels - 1) readString (strings options).tree).toOption).bind
          fun kind => some ⟨labelField, kind⟩ := by
      cases labelField <;> rfl
    rw [hread, readStrings_tree hlevels]
    rfl
  | inlineObject inner =>
    have hread : readDescriptor levels fields (Json.obj (itemMembers form ⟨labelField, .inlineObject inner⟩)).tree =
        (ItemKind.inlineObject <$> (fields (Json.obj (writeFields form inner)).tree).toOption).bind
          fun kind => some ⟨labelField, kind⟩ := by
      cases labelField <;> rfl
    rw [hread, hfields inner rfl]
    rfl

theorem mapM_map_eq_some {α β : Type} {read : β → Option α} {write : α → β} {as : List α}
    (h : ∀ a ∈ as, read (write a) = some a) : (as.map write).mapM read = some as := by
  induction as with
  | nil => rfl
  | cons a rest ih =>
    obtain ⟨ha, hrest⟩ := List.forall_mem_cons.mp h
    rw [List.map_cons, List.mapM_cons, ha, ih hrest]
    rfl

theorem describe_one (form : Form) {inArray alone : Reader (List SourceField)} {item : SourceItem}
    (hn : (writeItem form item).Nested levels)
    (hfields : ∀ inner, item.kind = .inlineObject inner → alone (Json.obj (writeFields form inner)).tree = .ok inner) :
    describe levels inArray alone (writeItem form item).tree = .ok (.one item) := by
  obtain ⟨kept, hkept, -⟩ := Tree.keep_tree hn
  have hread := readDescriptor_write form hn hfields
  unfold describe
  rw [bind_eq_ok]
  refine ⟨kept, orFault_eq_ok.mpr hkept, ?_⟩
  unfold writeItem Form.record at hread ⊢
  rw [Json.tree] at hread ⊢
  simp only [hread]
  rfl

theorem describe_many (form : Form) {inArray alone : Reader (List SourceField)} {items : List SourceItem}
    (hn : (Json.arr (writeItems form items)).Nested levels) (hfields : ∀ item ∈ items, ∀ inner,
      item.kind = .inlineObject inner → inArray (Json.obj (writeFields form inner)).tree = .ok inner) :
    describe levels inArray alone (Json.arr (writeItems form items)).tree = .ok (.many items) := by
  obtain ⟨kept, hkept, -⟩ := Tree.keep_tree hn
  have hread : (Json.itemTrees (writeItems form items)).mapM (readDescriptor (levels - 1) inArray) = some items := by
    have hitems : ∀ item ∈ items, readDescriptor (levels - 1) inArray (writeItem form item).tree = some item := by
      intro item hm
      cases hn with
      | arr h =>
        rw [writeItems_eq_map] at h
        exact readDescriptor_write form (h _ (List.mem_map_of_mem hm)) (hfields item hm)
    rw [writeItems_eq_map, Json.itemTrees_eq_map, List.map_map]
    exact mapM_map_eq_some hitems
  unfold describe
  rw [bind_eq_ok]
  refine ⟨kept, orFault_eq_ok.mpr hkept, ?_⟩
  simp only [Json.tree, hread]
  rfl

end

/-! ## All fields -/

section
variable (form : Form)

/-- The fields of an inline object are read back, however many brackets may still be opened. -/
def ReadBack (fields : List SourceField) : Prop :=
  ∀ levels, (Json.obj (writeFields form fields)).Nested levels →
    readFields levels (Json.obj (writeFields form fields)).tree = .ok fields

theorem nested_inline {levels : Nat} {labelField : Option String} {inner : List SourceField}
    (h : (writeItem form ⟨labelField, .inlineObject inner⟩).Nested levels) :
    (Json.obj (writeFields form inner)).Nested (levels - 1) :=
  (form.nested_record h).2 ("fields", .obj (writeFields form inner)) (by simp [itemMembers])

theorem readDescriptors_one {item : SourceItem} (hread : ∀ inner, item.kind = .inlineObject inner → ReadBack form inner)
    {levels : Nat} (hn : (writeItem form item).Nested levels) :
    readDescriptors levels (writeItem form item).tree = .ok (.one item) := by
  have hinner : ∀ inner, item.kind = .inlineObject inner →
      readFields (levels - 1) (Json.obj (writeFields form inner)).tree = .ok inner := by
    intro inner hk
    obtain ⟨labelField, kind⟩ := item
    cases hk
    exact hread inner rfl _ (nested_inline form hn)
  rw [readDescriptors_eq]
  exact describe_one form hn hinner

theorem readDescriptors_many {items : List SourceItem}
    (hread : ∀ item ∈ items, ∀ inner, item.kind = .inlineObject inner → ReadBack form inner)
    {levels : Nat} (hn : (Json.arr (writeItems form items)).Nested levels) :
    readDescriptors levels (Json.arr (writeItems form items)).tree = .ok (.many items) := by
  have hitems : ∀ item ∈ items, (writeItem form item).Nested (levels - 1) := by
    intro item hm
    cases hn with
    | arr h =>
      rw [writeItems_eq_map] at h
      exact h _ (List.mem_map_of_mem hm)
  have hinner : ∀ item ∈ items, ∀ inner, item.kind = .inlineObject inner →
      readFields (levels - 1 - 1) (Json.obj (writeFields form inner)).tree = .ok inner := by
    intro item hm inner hk
    obtain ⟨labelField, kind⟩ := item
    cases hk
    exact hread _ hm inner rfl _ (nested_inline form (hitems _ hm))
  rw [readDescriptors_eq]
  exact describe_many form hn hinner

theorem readField_write {f : SourceField} (hf : f.Plain) (hread : ∀ inner, f.kind.Holds inner → ReadBack form inner)
    {levels : Nat} (hn : (writeField form f).2.Nested levels) : readField levels (writeField form f).2.tree = .ok f.raw := by
  obtain ⟨a, kind⟩ := f
  obtain ⟨hlevels, h⟩ := form.nested_record hn
  obtain ⟨levels, rfl⟩ := Nat.exists_eq_succ_of_ne_zero hlevels
  have hdefault : ∀ v ∈ a.default, v ≠ .null ∧ v.Keyed ∧ v.Nested levels := by
    intro v hv
    obtain ⟨hnull, hkeyed, -⟩ := hf.default v hv
    have hv : a.default = some v := hv
    exact ⟨hnull, hkeyed, h ("default", v) (by simp [Attributes.write, Json.optional, hv])⟩
  have hconst : ∀ v ∈ a.const, v ≠ .null ∧ v.Keyed ∧ v.Nested levels := by
    intro v hv
    obtain ⟨hnull, hkeyed, -⟩ := hf.const v hv
    have hv : a.const = some v := hv
    exact ⟨hnull, hkeyed, h ("const", v) (by simp [Attributes.write, Json.optional, hv])⟩
  have hmember : ∀ m ∈ kind.write form, m.2.Nested levels := fun m hm =>
    h m (List.mem_cons_of_mem _ (List.mem_append_right _ hm))
  have hkind : Shape.Fills ((fieldShape levels (readFields levels) (readDescriptors levels)).slots.drop 7)
      (a.raw kind.typeName) (kind.write form) (FieldOf.raw ⟨a, kind⟩) := by
    refine fills_kind form (a.raw kind.typeName) kind ?_ ?_ ?_ ?_
    · rintro options rfl
      have hoptions := hmember ("options", strings options) List.mem_cons_self
      cases hoptions
      exact Nat.succ_ne_zero _
    · rintro inner rfl
      exact hread inner .inlineObject levels (hmember _ List.mem_cons_self)
    · rintro item rfl
      refine readDescriptors_one form (fun inner hk => hread inner ?_) (hmember ("of", writeItem form item) List.mem_cons_self)
      exact .item List.mem_cons_self hk
    · rintro items typeField rfl
      refine readDescriptors_many form (fun item hm inner hk => hread inner ?_)
        (hmember ("of", .arr (writeItems form items)) List.mem_cons_self)
      exact .item hm hk
  have hall := fills_attributes kind.typeName hdefault hconst hkind
  exact form.read_record (fieldShape_lawful levels _ _) hall (Nat.succ_ne_zero levels)

theorem readFields_write (fields : List SourceField) : PlainFields fields → ReadBack form fields := by
  induction fields using fields_induction with
  | step fields ih =>
    intro hplain levels hn
    obtain ⟨htop, hinside⟩ := plainFields_iff.mp hplain
    cases hn with
    | @obj levels members h =>
      rw [writeFields_eq_map] at h ⊢
      have hfields : ∀ f ∈ fields, readField levels (writeField form f).2.tree = .ok f.raw := by
        intro f hf
        exact readField_write form (htop f hf) (fun inner hin => ih f hf inner hin (hinside f hf inner hin))
          (h _ (List.mem_map_of_mem hf))
      have hentries := readDefinitions_write (Nat.succ_ne_zero levels) hfields
      change readDefinitions (levels + 1) (readField levels) _ >>= toFields = .ok fields
      rw [hentries]
      exact toFields_raw htop

end

end TypedContent

import Mathlib
import TypedContent.Proofs.Schema.Frames

/-!
# Fields mean the same wherever they are written

Fields are written in a definition, in an inline object that is a field, or in the descriptor of an
item, which stands alone or in an array; and so on inside of these. A place is the way there, with
all that is written around it. Whatever the place, the fields are read the same. If they are wrong
the whole is, and then the place shows in the error: a descriptor does not say what is wrong in it.
-/

namespace TypedContent

/-! ## What shows of a value in the whole -/

def conceal (isHidden : Bool) (e : ReadError) : ReadError := if isHidden then .shape .noDescriptors else e

/-- What is read of the whole has in it what is read of the value, and is wrong if the value is. -/
structure Reflects {α β : Type} (isHidden : Bool) (get? : β → Option α) (whole : Except ReadError β)
    (value : Except ReadError α) : Prop where
  ok : ∀ a, value = .ok a → ∃ b, whole = .ok b ∧ get? b = some a
  error : ∀ e, value = .error e → whole = .error (conceal isHidden e)

theorem reflects_map {α β : Type} {get? : β → Option α} {put : α → β} (h : ∀ a, get? (put a) = some a)
    (value : Except ReadError α) : Reflects false get? (put <$> value) value where
  ok a ha := ⟨put a, by rw [ha]; rfl, h a⟩
  error e he := by
    rw [he]
    rfl

theorem Reflects.trans {α β γ : Type} {isHidden isHidden' : Bool} {get? : γ → Option β} {get?' : β → Option α}
    {whole : Except ReadError γ} {part : Except ReadError β} {value : Except ReadError α}
    (h : Reflects isHidden get? whole part) (h' : Reflects isHidden' get?' part value) :
    Reflects (isHidden || isHidden') (fun c => get? c >>= get?') whole value where
  ok a ha := by
    obtain ⟨b, hb, hget'⟩ := h'.ok a ha
    obtain ⟨c, hc, hget⟩ := h.ok b hb
    exact ⟨c, hc, by rw [hget]; exact hget'⟩
  error e he := by
    rw [h.error _ (h'.error e he)]
    cases isHidden <;> rfl

/-! ## Fields with items -/

namespace WrittenField

theorem toField_ok {w : WrittenField} {name : String} {f : SourceField} (h : w.toField name = .ok f) :
    w.kind = .ok f.kind := by
  unfold toField at h
  split at h
  · cases h
  next hkind =>
    cases h
    exact hkind

theorem exists_toField {w : WrittenField} {kind : Kind (Option String)} (h : w.kind = .ok kind) (name : String) :
    ∃ f, w.toField name = .ok f ∧ f.kind = kind := by
  rw [toField, h]
  exact ⟨_, rfl, rfl⟩

theorem kind_listed {w : WrittenField} {kind : Kind (Option String)} (h : w.kind = .ok kind) (hitems : kind.items ≠ []) :
    (w.type = "list" ∧ ∃ item, w.of = some (.one item) ∧ kind = .list item) ∨
      (w.type = "polymorphic_list" ∧ ∃ d, w.of = some d ∧ ∃ typeField, w.typeField = some typeField ∧
        kind = .polymorphicList d.items typeField) := by
  have hspells := kind_eq_ok.mp h
  cases kind with
  | list item => exact .inl ⟨hspells.1, item, hspells.2, rfl⟩
  | polymorphicList items typeField =>
    obtain ⟨htype, ⟨d, hof, rfl⟩, htypeField⟩ := hspells
    exact .inr ⟨htype, d, hof, typeField, htypeField, rfl⟩
  | _ => exact absurd rfl hitems

/-- Other descriptors of the same form give the field other items. -/
theorem kind_of_descriptors {w : WrittenField} {d : Descriptors} {kind : Kind (Option String)}
    (h : { w with of := some d }.kind = .ok kind) (hitems : kind.items ≠ []) :
    kind.items = d.items ∧ ∀ d' : Descriptors, d'.isOne = d.isOne →
      ∃ kind', { w with of := some d' }.kind = .ok kind' ∧ kind'.items = d'.items := by
  obtain ⟨htype, item, ⟨⟩, rfl⟩ | ⟨htype, _, ⟨⟩, typeField, htypeField, rfl⟩ := kind_listed h hitems
  · refine ⟨rfl, fun d' hone => ?_⟩
    cases d' with
    | one item' => exact ⟨.list item', kind_of_spells ⟨htype, rfl⟩, rfl⟩
    | many items => cases hone
  · exact ⟨rfl, fun d' _ => ⟨.polymorphicList d'.items typeField, kind_of_spells ⟨htype, ⟨d', rfl, rfl⟩, htypeField⟩, rfl⟩⟩

end WrittenField

/-! ## Openings of a field -/

/-- The ways from a field to fields inside of it. -/
inductive Opening
  | fields (frame : RecordFrame .field "fields")
  | items (frame : RecordFrame .field "of") (gap : ItemGap)

namespace Opening

def fill : Opening → Tree → Tree
  | .fields frame, t => frame.fill t
  | .items frame gap, t => frame.fill (gap.fill t)

def levels (n : Nat) : Opening → Nat
  | .fields _ => n - 1
  | .items _ gap => gap.levels (n - 1)

def isDescribed : Opening → Bool
  | .fields _ => false
  | .items .. => true

def inside? : Opening → Kind (Option String) → Option (List SourceField)
  | .fields _, .inlineObject inner => some inner
  | .fields _, _ => none
  | .items _ gap, kind => itemFields? kind.items gap.index

theorem whole_fill (o : Opening) {t t' : Tree} (h : t.Whole → t'.Whole) : (o.fill t).Whole → (o.fill t').Whole := by
  cases o with
  | fields frame => exact frame.whole_fill h
  | items frame gap => exact frame.whole_fill (gap.whole_fill h)

theorem nested_of_fill (o : Opening) {t : Tree} {n : Nat} (h : (o.fill t).Nested n) : t.Nested (o.levels n) := by
  cases o with
  | fields frame => exact frame.nested_of_fill h
  | items frame gap => exact gap.nested_of_fill (frame.nested_of_fill h)

/-- What is read of a field shows what is read of the fields inside of it. -/
structure Shows (o : Opening) (n : Nat) (name : String) (t₀ : Tree) (inner₀ : List SourceField) : Prop where
  inner : readFields (o.levels n) t₀ = .ok inner₀
  other : ∀ t : Tree, t.Bracketed → (t₀.Whole → t.Whole) → (o.fill t).Nested n →
    Reflects o.isDescribed (fun w => (w.toField name).toOption >>= fun f => o.inside? f.kind)
      (Record.field.read n (o.fill t)) (readFields (o.levels n) t)

section
variable {n : Nat} {name : String} {t₀ : Tree} {w₀ : WrittenField} {f₀ : SourceField} {inner₀ : List SourceField}

theorem fields_shows (frame : RecordFrame .field "fields") (hb₀ : t₀.Bracketed)
    (h : Record.field.read n (frame.fill t₀) = .ok w₀) (hkind : w₀.kind = .ok (.inlineObject inner₀)) :
    (fields frame).Shows n name t₀ inner₀ := by
  obtain ⟨w, ⟨inner, hinner, rfl⟩, hall⟩ :=
    (fieldShape_lawful (n - 1) _ _).read_nullable_frame (r := .field) rfl (fieldShape_fields (n - 1) _ _) frame hb₀ h
  obtain ⟨htype, rfl⟩ := WrittenField.spells_of_kind hkind
  have hfound : ∀ inner, (({ w with fields := some inner }.toField name).toOption >>= fun f =>
      (fields frame).inside? f.kind) = some inner := by
    intro inner
    have hkind : { w with fields := some inner }.kind = .ok (.inlineObject inner) :=
      WrittenField.kind_of_spells ⟨htype, rfl⟩
    obtain ⟨f, hf, hk⟩ := WrittenField.exists_toField hkind name
    rw [hf]
    exact congrArg (fields frame).inside? hk
  refine ⟨hinner, fun t hb _ _ => ?_⟩
  rw [fill, Record.read, hall t hb]
  exact reflects_map hfound _

theorem items_shows (frame : RecordFrame .field "of") (gap : ItemGap) (h : Record.field.read n (frame.fill (gap.fill t₀)) = .ok w₀)
    {kind : Kind (Option String)} (hkind : w₀.kind = .ok kind) (hin : itemFields? kind.items gap.index = some inner₀) :
    (items frame gap).Shows n name t₀ inner₀ := by
  obtain ⟨w, ⟨d₀, hd₀, rfl⟩, hall⟩ :=
    (fieldShape_lawful (n - 1) _ _).read_nullable_frame (r := .field) rfl (fieldShape_of (n - 1) _ _) frame (gap.bracketed_fill t₀) h
  have hne : kind.items ≠ [] := by
    intro hnil
    rw [itemFields?, hnil] at hin
    cases hin
  obtain ⟨hitems, hother⟩ := WrittenField.kind_of_descriptors hkind hne
  rw [hitems] at hin
  obtain ⟨hinner₀, put, hput⟩ := gap.describes hd₀ hin
  refine ⟨hinner₀, fun t hb hw hn => ?_⟩
  have hwhole : (gap.fill t).Whole := gap.whole_fill hw (Tree.keep_ok_iff.mp (readDescriptors_eq_ok.mp hd₀).1).1
  have hread := hput.read t hwhole (frame.nested_of_fill hn)
  rw [fill, Record.read, hall _ (gap.bracketed_fill t)]
  constructor
  · intro inner hinner
    obtain ⟨kind, hkind, hitems⟩ := hother (put inner) (hput.isOne inner)
    obtain ⟨f, hf, rfl⟩ := WrittenField.exists_toField hkind name
    refine ⟨_, by rw [(hread _).mpr ⟨inner, hinner, rfl⟩]; rfl, ?_⟩
    change (({ w with of := some (put inner) }.toField name).toOption >>= _) = _
    rw [hf]
    exact (congrArg (itemFields? · gap.index) hitems).trans (hput.found inner)
  · intro e he
    -- whatever is wrong with the fields, it is the descriptors that are not read
    have hwrong : readDescriptors (n - 1) (gap.fill t) = .error (.shape .noDescriptors) := by
      refine readDescriptors_kept hwhole (frame.nested_of_fill hn) fun d hd => ?_
      obtain ⟨inner, hinner, -⟩ := (hread d).mp hd
      rw [levels, hinner] at he
      cases he
    rw [hwrong]
    rfl

theorem read (o : Opening) (hb₀ : t₀.Bracketed) (h : Record.field.read n (o.fill t₀) = .ok w₀)
    (hf : w₀.toField name = .ok f₀) (hin : o.inside? f₀.kind = some inner₀) : o.Shows n name t₀ inner₀ := by
  have hkind := WrittenField.toField_ok hf
  cases o with
  | fields frame =>
    refine fields_shows frame hb₀ h (hkind.trans ?_)
    unfold inside? at hin
    split at hin <;> simp_all
  | items frame gap => exact items_shows frame gap h hkind hin

end

theorem levels_le (o : Opening) (n : Nat) : o.levels n ≤ n := by
  cases o with
  | fields frame => exact Nat.sub_le n 1
  | items frame gap => cases gap <;> simp only [levels, ItemGap.levels] <;> omega

end Opening

/-! ## Turns -/

/-- From some fields to those inside of one of them. -/
structure Turn where
  before : List (Tree × Tree)
  name : String
  opening : Opening
  after : List (Tree × Tree)

theorem toFields_frame {entries entries' : List (String × WrittenField)} {name : String} {w₀ : WrittenField}
    {fields₀ : List SourceField} (h : toFields (entries ++ (name, w₀) :: entries') = .ok fields₀) :
    ∃ fields fields' f₀, fields.length = entries.length ∧ w₀.toField name = .ok f₀ ∧ fields₀ = fields ++ f₀ :: fields' ∧
      ∀ w f, w.toField name = .ok f → toFields (entries ++ (name, w) :: entries') = .ok (fields ++ f :: fields') := by
  obtain ⟨fields, f₀, fields', rfl, hbefore, hf₀, hafter⟩ := forall₂_middle.mp (toFields_eq_ok.mp h)
  refine ⟨fields, fields', f₀, hbefore.length_eq.symm, hf₀, rfl, fun w f hf => ?_⟩
  exact toFields_eq_ok.mpr (forall₂_middle.mpr ⟨fields, f, fields', rfl, hbefore, hf, hafter⟩)

namespace Turn

def fill (u : Turn) (t : Tree) : Tree := .obj (u.before ++ (.str u.name, u.opening.fill t) :: u.after) none

def levels (u : Turn) (n : Nat) : Nat := u.opening.levels (n - 1)

def inside? (u : Turn) (fields : List SourceField) : Option (List SourceField) := do
  u.opening.inside? (← fields[u.before.length]?).kind

theorem whole_fill (u : Turn) {t t' : Tree} (h : t.Whole → t'.Whole) : (u.fill t).Whole → (u.fill t').Whole := by
  simp only [fill, Tree.whole_obj, true_and, List.forall_mem_append, List.forall_mem_cons]
  exact fun ⟨hkeys, hbefore, ht, hafter⟩ => ⟨hkeys, hbefore, u.opening.whole_fill h ht, hafter⟩

theorem nested_of_fill (u : Turn) {t : Tree} {n : Nat} (h : (u.fill t).Nested n) : t.Nested (u.levels n) :=
  u.opening.nested_of_fill h.of_member

theorem read (u : Turn) {n : Nat} {t₀ : Tree} (hb₀ : t₀.Bracketed) {fields₀ inner₀ : List SourceField}
    (h : readFields n (u.fill t₀) = .ok fields₀) (hin : u.inside? fields₀ = some inner₀) :
    readFields (u.levels n) t₀ = .ok inner₀ ∧ ∀ t : Tree, t.Bracketed → (t₀.Whole → t.Whole) → (u.fill t).Nested n →
      Reflects u.opening.isDescribed u.inside? (readFields n (u.fill t)) (readFields (u.levels n) t) := by
  rw [readFields_eq, Site.read, bind_eq_ok] at h
  obtain ⟨entries₀, hentries, hfields⟩ := h
  obtain ⟨entries, entries', hlength, ⟨w₀, hw₀, rfl⟩, hall⟩ := readDefinitions_frame hentries
  obtain ⟨fields, fields', f₀, hlength', hf₀, rfl, hput⟩ := toFields_frame hfields
  have hplace : ∀ f : SourceField, u.inside? (fields ++ f :: fields') = u.opening.inside? f.kind := by
    intro f
    rw [inside?, ← hlength, ← hlength']
    simp
  rw [hplace] at hin
  obtain ⟨hinner₀, hopening⟩ := u.opening.read hb₀ hw₀ hf₀ hin
  refine ⟨hinner₀, fun t hb hw hn => ?_⟩
  have hreflects := hopening t hb hw hn.of_member
  rw [readFields_eq, Site.read, fill, hall]
  constructor
  · intro inner hinner
    obtain ⟨w, hread, hfound⟩ := hreflects.ok inner hinner
    obtain ⟨f, hf, hfound⟩ := Option.bind_eq_some_iff.mp hfound
    rw [toOption_eq_some] at hf
    refine ⟨_, ?_, (hplace f).trans hfound⟩
    rw [hread]
    exact hput w f hf
  · intro e he
    rw [hreflects.error e he]
    rfl

theorem levels_le (u : Turn) (n : Nat) : u.levels n ≤ n :=
  (u.opening.levels_le (n - 1)).trans (Nat.sub_le n 1)

/-! ## One turn after the other -/

variable {turns : List Turn}

def isDescribed (turns : List Turn) : Bool := turns.any fun u => u.opening.isDescribed

theorem bracketed_fills {t : Tree} (h : t.Bracketed) (turns : List Turn) : (turns.foldr fill t).Bracketed := by
  cases turns with
  | nil => exact h
  | cons u rest => trivial

theorem whole_fills {t t' : Tree} (h : t.Whole → t'.Whole) (turns : List Turn) :
    (turns.foldr fill t).Whole → (turns.foldr fill t').Whole := by
  induction turns with
  | nil => exact h
  | cons u rest ih => exact u.whole_fill ih

theorem nested_of_fills {t : Tree} {n : Nat} (h : (turns.foldr fill t).Nested n) :
    t.Nested (turns.foldl (fun n u => u.levels n) n) := by
  induction turns generalizing n with
  | nil => exact h
  | cons u rest ih => exact ih (u.nested_of_fill h)

theorem levels_foldl_le (turns : List Turn) (n : Nat) : turns.foldl (fun n u => u.levels n) n ≤ n := by
  induction turns generalizing n with
  | nil => exact Nat.le_refl n
  | cons u rest ih => exact (ih _).trans (u.levels_le n)

theorem read_fills {t₀ : Tree} (hb₀ : t₀.Bracketed) {n : Nat} {fields₀ inner₀ : List SourceField}
    (h : readFields n (turns.foldr fill t₀) = .ok fields₀)
    (hin : turns.foldlM (fun fields u => u.inside? fields) fields₀ = some inner₀) {t : Tree} (hb : t.Bracketed)
    (hw : t₀.Whole → t.Whole) (hn : (turns.foldr fill t).Nested n) :
    Reflects (isDescribed turns) (fun fields => turns.foldlM (fun fields u => u.inside? fields) fields)
      (readFields n (turns.foldr fill t)) (readFields (turns.foldl (fun n u => u.levels n) n) t) := by
  induction turns generalizing n fields₀ with
  | nil => exact ⟨fun fields hfields => ⟨fields, hfields, rfl⟩, fun e he => he⟩
  | cons u rest ih =>
    simp only [List.foldlM_cons, Option.bind_eq_bind, Option.bind_eq_some_iff] at hin
    obtain ⟨fields, hfields, hin⟩ := hin
    -- the gap of the first turn has the rest of the way in it
    obtain ⟨hread, hall⟩ := u.read (bracketed_fills hb₀ rest) h hfields
    have hturn := hall _ (bracketed_fills hb rest) (whole_fills hw rest) hn
    exact hturn.trans (ih hread hin (u.nested_of_fill hn))

end Turn

/-! ## Definitions -/

abbrev TableKind.record : TableKind → Record
  | .document => .document
  | .object => .object

def TableKind.key : TableKind → String
  | .document => "documentTypes"
  | .object => "objectTypes"

def WrittenSchema.fields (w : WrittenSchema) : TableKind → List (List SourceField)
  | .document => w.documents.map (·.2.fields)
  | .object => w.objects.map (·.2.fields)

/-- A schema with a gap for the fields of a definition. -/
structure DefinitionFrame where
  table : TableKind
  schema : RecordFrame .schema table.key
  before : List (Tree × Tree)
  name : String
  definition : RecordFrame table.record "fields"
  after : List (Tree × Tree)

section
variable {σ : Type} {shape : Shape σ} {r : Record} {levels : Nat} {read : Reader (List SourceField)} {key name : String}
  {put : σ → List SourceField → σ} {keep : WrittenSchema → List (String × σ) → WrittenSchema}
  {get? : WrittenSchema → Option (List SourceField)} {before after : List (Tree × Tree)}

/-- Around a definition stand the other members of its record, the other definitions and the other table. -/
theorem reflects_definition (hs : shape.Lawful) (hslots : shape.slots.map (·.key) = r.slots)
    (hfields : ⟨"fields", .defaulted, fun d t => put d <$> read t⟩ ∈ shape.slots)
    (htable : ⟨key, .defaulted, fun w t => keep w <$> readDefinitions (levels - 1) (readRecord (levels - 1 - 1) shape) t⟩ ∈
      (schemaShape (levels - 1)).slots)
    (hget : ∀ w d entries entries' fields, entries.length = before.length →
      get? (keep w (entries ++ (name, put d fields) :: entries')) = some fields)
    (schema : RecordFrame .schema key) (definition : RecordFrame r "fields") {t₀ : Tree} {w₀ : WrittenSchema}
    {fields₀ : List SourceField} (hin : get? w₀ = some fields₀)
    (h : Record.schema.read levels (schema.fill (.obj (before ++ (.str name, definition.fill t₀) :: after) none)) = .ok w₀) :
    read t₀ = .ok fields₀ ∧ ∀ t, Reflects false get?
      (Record.schema.read levels (schema.fill (.obj (before ++ (.str name, definition.fill t) :: after) none))) (read t) := by
  obtain ⟨w, ⟨_, hentries, rfl⟩, hschema⟩ :=
    (schemaShape_lawful (levels - 1)).read_frame (r := .schema) rfl htable (fun _ _ => rfl) schema h
  obtain ⟨entries, entries', hlength, ⟨_, hd, rfl⟩, hdefinitions⟩ := readDefinitions_frame hentries
  obtain ⟨d, ⟨fields, hread, rfl⟩, hdefinition⟩ := hs.read_frame hslots hfields (fun _ _ => rfl) definition hd
  obtain rfl := Option.some.inj ((hget w d entries entries' fields hlength).symm.trans hin)
  refine ⟨hread, fun t => ?_⟩
  rw [Record.read, hschema, hdefinitions, hdefinition, ← comp_map, ← comp_map]
  exact reflects_map (fun fields => hget w d entries entries' fields hlength) (read t)

end

namespace DefinitionFrame

def fill (d : DefinitionFrame) (t : Tree) : Tree :=
  d.schema.fill (.obj (d.before ++ (.str d.name, d.definition.fill t) :: d.after) none)

def fields? (d : DefinitionFrame) (w : WrittenSchema) : Option (List SourceField) := (w.fields d.table)[d.before.length]?

theorem nested_of_fill (d : DefinitionFrame) {t : Tree} {n : Nat} (h : (d.fill t).Nested n) : t.Nested (n - 3) :=
  d.definition.nested_of_fill (d.schema.nested_of_fill h).of_member

theorem read (d : DefinitionFrame) {n : Nat} {t₀ : Tree} {w₀ : WrittenSchema} {fields₀ : List SourceField}
    (h : Record.schema.read n (d.fill t₀) = .ok w₀) (hin : d.fields? w₀ = some fields₀) :
    readFields (n - 3) t₀ = .ok fields₀ ∧ ∀ t,
      Reflects false d.fields? (Record.schema.read n (d.fill t)) (readFields (n - 3) t) := by
  obtain ⟨table, schema, before, name, definition, after⟩ := d
  cases table with
  | document =>
    refine reflects_definition (documentShape_lawful (n - 3)) rfl (documentShape_fields (n - 3))
      (schemaShape_documents (n - 1)) (fun w d entries entries' fields hlength => ?_) schema definition hin h
    simp [fields?, WrittenSchema.fields, ← hlength]
  | object =>
    refine reflects_definition (objectShape_lawful (n - 3)) rfl (objectShape_fields (n - 3))
      (schemaShape_objects (n - 1)) (fun w d entries entries' fields hlength => ?_) schema definition hin h
    simp [fields?, WrittenSchema.fields, ← hlength]

end DefinitionFrame

/-! ## Places -/

/-- The way to some fields: from the fields of a definition, turn by turn. -/
structure FieldsPlace where
  definition : DefinitionFrame
  turns : List Turn

/-- A schema as it is written, before the checks on the whole. -/
def WrittenSchema.ofText (text : String) : Except ReadError WrittenSchema := readText (Record.schema.read nestingLimit) text

namespace FieldsPlace

def fill (p : FieldsPlace) (t : Tree) : Tree := p.definition.fill (p.turns.foldr Turn.fill t)

def fields? (p : FieldsPlace) (w : WrittenSchema) : Option (List SourceField) :=
  p.definition.fields? w >>= fun fields => p.turns.foldlM (fun fields u => u.inside? fields) fields

def isDescribed (p : FieldsPlace) : Bool := Turn.isDescribed p.turns

/-- All around the place is right: with no fields there, the whole is read. -/
def Open (p : FieldsPlace) : Prop :=
  ∃ w fields, Record.schema.read nestingLimit (p.fill (.obj [] none)) = .ok w ∧ p.fields? w = some fields

theorem nested_of_fill (p : FieldsPlace) {t : Tree} (h : (p.fill t).Nested nestingLimit) : t.Nested nestingLimit :=
  (Turn.nested_of_fills (p.definition.nested_of_fill h)).mono
    ((Turn.levels_foldl_le p.turns (nestingLimit - 3)).trans (Nat.sub_le nestingLimit 3))

theorem read {p : FieldsPlace} (hp : p.Open) {t : Tree} (hb : t.Bracketed) (hw : t.Whole)
    (hn : (p.fill t).Nested nestingLimit) :
    Reflects p.isDescribed p.fields? (Record.schema.read nestingLimit (p.fill t)) (readFields nestingLimit t) := by
  obtain ⟨w, fields, hread, hin⟩ := hp
  obtain ⟨outer, houter, hin⟩ := Option.bind_eq_some_iff.mp hin
  obtain ⟨hturns, hdefinition⟩ := p.definition.read hread houter
  -- the value may open all the brackets that are left, and is read alone as if there were more
  have hn' := p.definition.nested_of_fill hn
  have hle := (Turn.levels_foldl_le p.turns (nestingLimit - 3)).trans (Nat.sub_le nestingLimit 3)
  rw [readFields_of_le (Turn.nested_of_fills hn') hle]
  have hnone : (Tree.obj [] none).Bracketed := trivial
  exact (hdefinition _).trans (Turn.read_fills hnone hturns hin hb (fun _ => hw) hn')

end FieldsPlace

/-- Fields that are written at two places are read the same at both, and the same as alone, from
their text or from what has been kept of it. -/
theorem fields_readAlike (p q : FieldsPlace) (hp : p.Open) (hq : q.Open) (members : List (Tree × Tree))
    (hw : (Tree.obj members none).Whole) (text textP textQ : String) (ht : (Tree.obj members none).Writes text.toList)
    (hP : (p.fill (.obj members none)).Writes textP.toList) (hnP : (p.fill (.obj members none)).Nested 127)
    (hQ : (q.fill (.obj members none)).Writes textQ.toList) (hnQ : (q.fill (.obj members none)).Nested 127) :
    (∃ kept, Tree.buffer 127 (.obj members none) = .ok kept ∧
      kept.fields? = (readText (readFields 127) text).toOption) ∧
    ((∃ fields, readText (readFields 127) text = .ok fields ∧
        (∃ w, WrittenSchema.ofText textP = .ok w ∧ p.fields? w = some fields) ∧
        ∃ w, WrittenSchema.ofText textQ = .ok w ∧ q.fields? w = some fields) ∨
      ∃ e, readText (readFields 127) text = .error e ∧
        WrittenSchema.ofText textP = .error (conceal p.isDescribed e) ∧
        WrittenSchema.ofText textQ = .error (conceal q.isDescribed e)) := by
  rw [WrittenSchema.ofText, WrittenSchema.ofText, readText_of_writes ht, readText_of_writes hP, readText_of_writes hQ]
  have hreadP := FieldsPlace.read hp (t := .obj members none) trivial hw hnP
  have hreadQ := FieldsPlace.read hq (t := .obj members none) trivial hw hnQ
  obtain ⟨kept, hkept⟩ := Tree.buffer_ok_iff.mpr ⟨hw, p.nested_of_fill hnP⟩
  refine ⟨⟨kept, hkept, (agree_fields 127 _ kept hkept).symm⟩, ?_⟩
  cases hread : readFields 127 (.obj members none) with
  | ok fields => exact .inl ⟨fields, rfl, hreadP.ok fields hread, hreadQ.ok fields hread⟩
  | error e => exact .inr ⟨e, rfl, hreadP.error e hread, hreadQ.error e hread⟩

def pagePlace : FieldsPlace :=
  ⟨⟨.document, .members [] [], [], "Page", .members [(.str "label", .str "A page")] [], []⟩, []⟩

/-- The fields of an item in an array, among those of an item that stands alone in a card. -/
def cardPlace : FieldsPlace :=
  ⟨⟨.object, .members [] [], [], "Card", .items [.null, .null, .null] [] rfl, []⟩,
    [⟨[], "sides", .items (.members [(.str "type", .str "list")] []) (.alone [(.str "type", .str "inline_object")] []), []⟩,
      ⟨[], "faces", .items (.members [(.str "type", .str "polymorphic_list"), (.str "typeField", .str "kind")] [])
        (.among [.obj [(.str "type", .str "object"), (.str "object", .str "Card")] none] []
          [(.str "type", .str "inline_object")] []), []⟩]⟩

def pageWith (fields : Json) : Json :=
  .obj [("documentTypes", .obj [("Page", .obj [("label", .str "A page"), ("fields", fields)])])]

def cardWith (fields : Json) : Json :=
  .obj [("objectTypes", .obj [("Card", .arr [.null, .null, .null, .obj [("sides", .obj [("type", .str "list"),
    ("of", .obj [("type", .str "inline_object"), ("fields", .obj [("faces", .obj [("type", .str "polymorphic_list"),
      ("typeField", .str "kind"), ("of", .arr [.obj [("type", .str "object"), ("object", .str "Card")],
        .obj [("type", .str "inline_object"), ("fields", fields)]])])])])])]])])]

def titleTyped : Json := .obj [("title", .obj [("type", .str "string")])]

def titleUntyped : Json := .obj [("title", .obj [])]

theorem titles_readAlike :
    (∃ fields, readText (readFields 127) titleTyped.pretty = .ok fields ∧
      (∃ w, WrittenSchema.ofText (pageWith titleTyped).compact = .ok w ∧ pagePlace.fields? w = some fields) ∧
      ∃ w, WrittenSchema.ofText (cardWith titleTyped).pretty = .ok w ∧ cardPlace.fields? w = some fields) ∧
    readText (readFields 127) titleUntyped.pretty = .error (.shape (.missingKey "type")) ∧
    WrittenSchema.ofText (pageWith titleUntyped).compact = .error (.shape (.missingKey "type")) ∧
    WrittenSchema.ofText (cardWith titleUntyped).pretty = .error (.shape .noDescriptors) := by
  have hpage : pagePlace.Open := ⟨_, _, by rfl, by rfl⟩
  have hcard : cardPlace.Open := ⟨_, _, by rfl, by rfl⟩
  have hwrites : ∀ {v : Json}, v.Lossless → v.tree.Writes v.pretty.toList ∧ v.tree.Writes v.compact.toList :=
    fun hv => ⟨Json.writes_text hv .pretty, Json.writes_text hv .compact⟩
  have hlossless : ∀ {v : Json}, v.Lossless → (pageWith v).Lossless ∧ (cardWith v).Lossless := by
    intro v hv
    simp [pageWith, cardWith, Json.lossless_obj, Json.lossless_arr, Json.Lossless.str, Json.Lossless.null, hv]
  have halike : ∀ {v : Json} {members : List (Tree × Tree)}, v.tree = .obj members none → v.Lossless →
      (∃ w, v.tree.keep 127 = .ok w) → (∃ w, (pageWith v).tree.keep 127 = .ok w) →
        (∃ w, (cardWith v).tree.keep 127 = .ok w) → _ :=
    fun {v members} htree hv hkept hkeptPage hkeptCard =>
      fields_readAlike pagePlace cardPlace hpage hcard members (htree ▸ (Tree.keep_ok_iff.mp hkept).1)
        v.pretty (pageWith v).compact (cardWith v).pretty (htree ▸ (hwrites hv).1)
        (htree ▸ (hwrites (hlossless hv).1).2) (htree ▸ (Tree.keep_ok_iff.mp hkeptPage).2)
        (htree ▸ (hwrites (hlossless hv).2).1) (htree ▸ (Tree.keep_ok_iff.mp hkeptCard).2)
  have htyped : titleTyped.Lossless := by simp [titleTyped, Json.lossless_obj, Json.Lossless.str]
  have huntyped : titleUntyped.Lossless := by simp [titleUntyped, Json.lossless_obj]
  constructor
  · obtain ⟨-, h | ⟨e, he, -⟩⟩ := halike (v := titleTyped) rfl htyped ⟨_, by rfl⟩ ⟨_, by rfl⟩ ⟨_, by rfl⟩
    · exact h
    · rw [readText_of_writes (hwrites htyped).1] at he
      cases he
  · have hread : readText (readFields 127) titleUntyped.pretty = .error (.shape (.missingKey "type")) := by
      rw [readText_of_writes (hwrites huntyped).1]
      rfl
    obtain ⟨-, ⟨fields, h, -⟩ | ⟨e, h, hp, hq⟩⟩ := halike (v := titleUntyped) rfl huntyped ⟨_, by rfl⟩ ⟨_, by rfl⟩ ⟨_, by rfl⟩
    · rw [hread] at h
      cases h
    · cases hread.symm.trans h
      exact ⟨hread, hp, hq⟩

end TypedContent

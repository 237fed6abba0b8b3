import Mathlib
import TypedContent.Proofs.Field.Written
import TypedContent.Proofs.Schema.Validation

/-!
# Schemas as they are written

A schema is written as an object of its document types and one of its object types, each in the
order of its table. What was written, in either layout, is read back as the schema. The reader
adds all objects and then all documents; that is accepted whatever calls built the schema, since
what makes it valid does not depend on their order.
-/

namespace TypedContent

open Json (optional)

/-- An object of definitions. -/
def Form.definitions (form : Form) (key : String) (members : List (String × Json)) : List (String × Json) :=
  if members.isEmpty && !form.empties then [] else [(key, .obj members)]

section
variable (form : Form)

def ComputedField.write (c : ComputedField) : String × Json :=
  (c.name, form.record (optional "description" (c.description.map .str)
    ++ [("type", .str c.type.text), ("resolve", .str c.resolve)]))

def DocumentType.write (d : DocumentType) : String × Json :=
  (d.name, form.record (optional "label" (d.label.map .str)
    ++ optional "description" (d.description.map .str)
    ++ optional "labelField" (d.labelField.map .str)
    ++ optional "fileType" (d.fileType.map (.str ·.text))
    ++ optional "isSingleton" (d.isSingleton.map .bool)
    ++ form.definitions "fields" (writeFields form d.fields)
    ++ form.definitions "computedFields" (d.computed.map (·.write form))))

def ObjectType.write (o : ObjectType) : String × Json :=
  (o.name, form.record (optional "label" (o.label.map .str)
    ++ optional "description" (o.description.map .str)
    ++ optional "labelField" (o.labelField.map .str)
    ++ form.definitions "fields" (writeFields form o.fields)))

def Schema.write (s : Schema) : Json :=
  form.record (form.definitions "documentTypes" (s.documents.entries.map (·.write form))
    ++ form.definitions "objectTypes" (s.objects.entries.map (·.write form)))

end

structure Schema.Plain (s : Schema) : Prop where
  documents : ∀ d ∈ s.documents.entries, PlainFields d.fields
  objects : ∀ o ∈ s.objects.entries, PlainFields o.fields

/-! ## Definitions -/

section
variable {levels : Nat} {form : Form}

section
variable {σ α : Type} {key : String} {read : Reader (List α)} {store : σ → List α → σ} {value : σ}
  {written : List (String × Json)}

theorem fills_definitions (definitions : List α)
    (hread : (key, .obj written) ∈ form.definitions key written → read (Json.obj written).tree = .ok definitions)
    (hempty : written = [] → definitions = []) (hnone : store value [] = value) {members : List (String × Json)}
    {slots : List (Slot σ)} {result : σ} (h : Shape.Fills slots (store value definitions) members result) :
    Shape.Fills (⟨key, .defaulted, fun s t => store s <$> read t⟩ :: slots) value
      (form.definitions key written ++ members) result := by
  unfold Form.definitions at hread ⊢
  split
  next hskip =>
    simp only [Bool.and_eq_true, List.isEmpty_iff] at hskip
    rw [hempty hskip.1, hnone] at h
    exact .skip (by simp) h
  next hskip =>
    rw [if_neg hskip] at hread
    exact .fill (map_eq_ok.mpr ⟨definitions, hread List.mem_cons_self, rfl⟩) h

theorem fills_last (definitions : List α)
    (hread : (key, .obj written) ∈ form.definitions key written → read (Json.obj written).tree = .ok definitions)
    (hempty : written = [] → definitions = []) (hnone : store value [] = value) :
    Shape.Fills [⟨key, .defaulted, fun s t => store s <$> read t⟩] value (form.definitions key written)
      (store value definitions) := by
  have hall := fills_definitions definitions hread hempty hnone .nil
  rwa [List.append_nil] at hall

end

theorem computedShape_lawful (levels : Nat) : (computedShape levels).Lawful where
  nodup := by simp [computedShape, nullableSlot]
  commute := by
    unfold computedShape nullableSlot
    simp only [List.pairwise_cons, List.forall_mem_cons, List.not_mem_nil, false_implies, implies_true, List.Pairwise.nil,
      and_true]
    repeat' apply And.intro
    all_goals exact commute_of_store fun _ _ _ => rfl

theorem documentShape_lawful (levels : Nat) : (documentShape levels).Lawful where
  nodup := by simp [documentShape, nullableSlot]
  commute := by
    unfold documentShape nullableSlot
    simp only [List.pairwise_cons, List.forall_mem_cons, List.not_mem_nil, false_implies, implies_true, List.Pairwise.nil,
      and_true]
    repeat' apply And.intro
    all_goals exact commute_of_store fun _ _ _ => rfl

theorem documentShape_fields (levels : Nat) :
    ⟨"fields", .defaulted, fun d t => ({ d with fields := · }) <$> readFields levels t⟩ ∈ (documentShape levels).slots := by
  simp [documentShape]

theorem documentShape_computed (levels : Nat) :
    ⟨"computedFields", .defaulted, fun d t => ({ d with computed := · }) <$> readComputed levels t⟩ ∈
      (documentShape levels).slots := by
  simp [documentShape]

theorem objectShape_lawful (levels : Nat) : (objectShape levels).Lawful where
  nodup := by simp [objectShape, nullableSlot]
  commute := by
    unfold objectShape nullableSlot
    simp only [List.pairwise_cons, List.forall_mem_cons, List.not_mem_nil, false_implies, implies_true, List.Pairwise.nil,
      and_true]
    repeat' apply And.intro
    all_goals exact commute_of_store fun _ _ _ => rfl

theorem objectShape_fields (levels : Nat) :
    ⟨"fields", .defaulted, fun o t => ({ o with fields := · }) <$> readFields levels t⟩ ∈ (objectShape levels).slots := by
  simp [objectShape]

theorem schemaShape_lawful (levels : Nat) : (schemaShape levels).Lawful where
  nodup := by simp [schemaShape]
  commute := by
    unfold schemaShape
    simp only [List.pairwise_cons, List.forall_mem_cons, List.not_mem_nil, false_implies, implies_true, List.Pairwise.nil,
      and_true]
    exact commute_of_store fun _ _ _ => rfl

theorem schemaShape_documents (levels : Nat) :
    ⟨"documentTypes", .defaulted, fun w t => ({ w with documents := · }) <$>
      readDefinitions levels (readRecord (levels - 1) (documentShape (levels - 2))) t⟩ ∈ (schemaShape levels).slots := by
  simp [schemaShape]

theorem schemaShape_objects (levels : Nat) :
    ⟨"objectTypes", .defaulted, fun w t => ({ w with objects := · }) <$>
      readDefinitions levels (readRecord (levels - 1) (objectShape (levels - 2))) t⟩ ∈ (schemaShape levels).slots := by
  simp [schemaShape]

theorem readComputed_write {computed : List ComputedField}
    (hn : (Json.obj (computed.map (·.write form))).Nested levels) :
    readComputed levels (Json.obj (computed.map (·.write form))).tree = .ok computed := by
  cases hn with
  | @obj levels members h =>
    have hall : ∀ c ∈ computed, readRecord levels (computedShape (levels - 1)) (c.write form).2.tree =
        .ok { description := c.description, type := c.type, resolve := c.resolve } := by
      intro c hc
      have hlevels := (form.nested_record (h _ (List.mem_map_of_mem hc))).1
      have htype : readVariant (levels - 1) ComputedType.all (Json.str c.type.text).tree = .ok c.type := by
        cases c.type <;> rfl
      refine form.read_record (computedShape_lawful _) ?_ hlevels
      refine fills_optional rfl (readString_optional c.description) rfl ?_
      exact .fill (map_eq_ok.mpr ⟨c.type, htype, rfl⟩) (.fill rfl .nil)
    unfold readComputed
    rw [bind_eq_ok]
    refine ⟨_, readDefinitions_write (Nat.succ_ne_zero levels) hall, ?_⟩
    rw [pure_eq_ok, List.map_map]
    exact List.map_id' computed

theorem readDocument_write {d : DocumentType} (hplain : PlainFields d.fields) (hn : (d.write form).2.Nested levels) :
    readRecord levels (documentShape (levels - 1)) (d.write form).2.tree = .ok { d with name := "" } := by
  obtain ⟨hlevels, h⟩ := form.nested_record hn
  simp only [List.forall_mem_append] at h
  obtain ⟨⟨-, hfields⟩, hcomputed⟩ := h
  have hfile : ∀ x ∈ d.fileType, Json.str x.text ≠ .null ∧
      readVariant (levels - 1) FileType.all (Json.str x.text).tree = .ok x := by
    intro x _
    cases x <;> exact ⟨by simp, rfl⟩
  refine form.read_record (documentShape_lawful _) ?_ hlevels
  simp only [List.append_assoc]
  refine fills_optional rfl (readString_optional d.label) rfl ?_
  refine fills_optional rfl (readString_optional d.description) rfl ?_
  refine fills_optional rfl (readString_optional d.labelField) rfl ?_
  refine fills_optional rfl hfile rfl ?_
  refine fills_optional rfl (readBool_optional d.isSingleton) rfl ?_
  refine fills_definitions d.fields (fun hm => ?_) (writeFields_eq_nil form) rfl
    (fills_last d.computed (fun hm => ?_) List.map_eq_nil_iff.mp rfl)
  · exact readFields_write form d.fields hplain (levels - 1) (hfields _ hm)
  · exact readComputed_write (hcomputed _ hm)

theorem readObject_write {o : ObjectType} (hplain : PlainFields o.fields) (hn : (o.write form).2.Nested levels) :
    readRecord levels (objectShape (levels - 1)) (o.write form).2.tree = .ok { o with name := "" } := by
  obtain ⟨hlevels, h⟩ := form.nested_record hn
  simp only [List.forall_mem_append] at h
  obtain ⟨-, hfields⟩ := h
  refine form.read_record (objectShape_lawful _) ?_ hlevels
  simp only [List.append_assoc]
  refine fills_optional rfl (readString_optional o.label) rfl ?_
  refine fills_optional rfl (readString_optional o.description) rfl ?_
  refine fills_optional rfl (readString_optional o.labelField) rfl ?_
  refine fills_last o.fields (fun hm => ?_) (writeFields_eq_nil form) rfl
  exact readFields_write form o.fields hplain (levels - 1) (hfields _ hm)

theorem readDocuments_write {documents : List DocumentType} (hplain : ∀ d ∈ documents, PlainFields d.fields)
    (hn : (Json.obj (documents.map (·.write form))).Nested levels) :
    readDefinitions levels (readRecord (levels - 1) (documentShape (levels - 2)))
      (Json.obj (documents.map (·.write form))).tree = .ok (documents.map fun d => (d.name, { d with name := "" })) := by
  cases hn with
  | @obj levels members h =>
    refine readDefinitions_write (Nat.succ_ne_zero levels) fun d hd => ?_
    exact readDocument_write (hplain d hd) (h _ (List.mem_map_of_mem hd))

theorem readObjects_write {objects : List ObjectType} (hplain : ∀ o ∈ objects, PlainFields o.fields)
    (hn : (Json.obj (objects.map (·.write form))).Nested levels) :
    readDefinitions levels (readRecord (levels - 1) (objectShape (levels - 2)))
      (Json.obj (objects.map (·.write form))).tree = .ok (objects.map fun o => (o.name, { o with name := "" })) := by
  cases hn with
  | @obj levels members h =>
    refine readDefinitions_write (Nat.succ_ne_zero levels) fun o ho => ?_
    exact readObject_write (hplain o ho) (h _ (List.mem_map_of_mem ho))

end

/-! ## All definitions, objects first -/

namespace Schema

theorem valid_of_append {s : Schema} {a : Addition} (h : (s.append a).Valid) : s.Valid := by
  cases a with
  | document d =>
    refine ⟨(Table.nodup_append.mp h.documents_nodup).1, h.objects_nodup, ?_, (Table.forall_append.mp h.documents).1,
      h.objects⟩
    intro name hname
    have hmem : name ∈ (s.append (.document d)).documents.names := by
      rw [append, Table.names_append]
      exact List.mem_append_left _ hname
    exact h.disjoint name hmem
  | object o =>
    refine ⟨h.documents_nodup, (Table.nodup_append.mp h.objects_nodup).1, ?_, h.documents,
      (Table.forall_append.mp h.objects).1⟩
    intro name hname hm
    have hmem : name ∈ (s.append (.object o)).objects.names := by
      rw [append, Table.names_append]
      exact List.mem_append_left _ hm
    exact h.disjoint name hname hmem

/-- Additions that make a valid schema are accepted, in whatever order they come. -/
theorem foldlM_add {calls : List Addition} (h : (calls.foldl append empty).Valid) :
    calls.foldlM add empty = .ok (calls.foldl append empty) := by
  induction calls using List.reverseRecOn with
  | nil => rfl
  | append_singleton calls a ih =>
    rw [List.foldl_append] at h ⊢
    have hvalid := valid_of_append h
    have hfits := (append_valid_iff hvalid a).mp h
    rw [List.foldlM_append, ih hvalid, bind_eq_ok]
    refine ⟨_, rfl, ?_⟩
    rw [List.foldlM_cons, add_eq_ok.mpr ⟨hfits, rfl⟩]
    rfl

theorem foldl_append_objects (objects : List ObjectType) : ∀ s : Schema, (objects.map .object).foldl append s =
    { s with objects := { s.objects with entries := s.objects.entries ++ objects } } := by
  induction objects with
  | nil => simp
  | cons o rest ih => simp [ih, append, Table.append]

theorem foldl_append_documents (documents : List DocumentType) : ∀ s : Schema, (documents.map .document).foldl append s =
    { s with documents := { s.documents with entries := s.documents.entries ++ documents } } := by
  induction documents with
  | nil => simp
  | cons d rest ih => simp [ih, append, Table.append]

def Kinds (s : Schema) : Prop := s.documents.kind = .document ∧ s.objects.kind = .object

theorem run_kinds (calls : List Addition) : (run calls).Kinds := by
  apply run_induction ⟨rfl, rfl⟩
  intro s a _ hs
  cases a <;> exact hs

theorem toSchema_write {s : Schema} (hv : s.Valid) (hkinds : s.Kinds) :
    WrittenSchema.toSchema {
      documents := s.documents.entries.map fun d => (d.name, { d with name := "" })
      objects := s.objects.entries.map fun o => (o.name, { o with name := "" }) } = .ok s := by
  obtain ⟨⟨dkind, documents⟩, ⟨okind, objects⟩⟩ := s
  obtain ⟨rfl, rfl⟩ := hkinds
  have hall : (objects.map Addition.object ++ documents.map Addition.document).foldl append empty =
      ⟨⟨.document, documents⟩, ⟨.object, objects⟩⟩ := by
    rw [List.foldl_append, foldl_append_objects, foldl_append_documents]
    rfl
  rw [← hall] at hv
  have hfold := foldlM_add hv
  rw [hall, List.foldlM_append] at hfold
  simp only [List.foldlM_map] at hfold
  unfold WrittenSchema.toSchema
  simp only [List.foldlM_map]
  exact hfold

theorem readSchema_write {s : Schema} {form : Form} {levels : Nat} (hplain : s.Plain) (hv : s.Valid) (hkinds : s.Kinds)
    (hn : (s.write form).Nested levels) : readSchema levels (s.write form).tree = .ok s := by
  obtain ⟨hlevels, h⟩ := form.nested_record hn
  rw [List.forall_mem_append] at h
  obtain ⟨hdocuments, hobjects⟩ := h
  have hread : readRecord levels (schemaShape (levels - 1)) (s.write form).tree = .ok {
      documents := s.documents.entries.map fun d => (d.name, { d with name := "" })
      objects := s.objects.entries.map fun o => (o.name, { o with name := "" }) } := by
    refine form.read_record (schemaShape_lawful _) ?_ hlevels
    refine fills_definitions _ (fun hm => ?_) (fun hnil => ?_) rfl (fills_last _ (fun hm => ?_) (fun hnil => ?_) rfl)
    · exact readDocuments_write hplain.documents (hdocuments _ hm)
    · rw [List.map_eq_nil_iff.mp hnil, List.map_nil]
    · exact readObjects_write hplain.objects (hobjects _ hm)
    · rw [List.map_eq_nil_iff.mp hnil, List.map_nil]
  unfold readSchema
  rw [bind_eq_ok]
  refine ⟨_, hread, ?_⟩
  rw [toSchema_write hv hkinds]

/-! ## Numbers -/

section
variable {form : Form}

theorem lossless_definitions {key : String} {written : List (String × Json)} (h : ∀ m ∈ written, m.2.Lossless) :
    ∀ m ∈ form.definitions key written, m.2.Lossless := by
  unfold Form.definitions
  split
  · exact List.forall_mem_nil _
  · exact List.forall_mem_singleton.mpr (.obj h)

theorem lossless_computed (c : ComputedField) : (c.write form).2.Lossless := by
  refine form.lossless_record (List.forall_mem_append.mpr ⟨lossless_str c.description, ?_⟩)
  simp [Json.Lossless.str]

theorem lossless_document {d : DocumentType} (h : PlainFields d.fields) : (d.write form).2.Lossless := by
  have hfile : ∀ x ∈ d.fileType.map fun x => Json.str x.text, x.Lossless := by
    intro x hx
    obtain ⟨y, -, rfl⟩ := Option.mem_map.mp hx
    exact .str
  have hfields := Json.lossless_obj.mp (lossless_fields form d.fields h)
  have hcomputed : ∀ m ∈ d.computed.map (·.write form), m.2.Lossless :=
    List.forall_mem_map.mpr fun c _ => lossless_computed c
  refine form.lossless_record ?_
  simp only [List.forall_mem_append]
  exact ⟨⟨⟨⟨⟨⟨lossless_str _, lossless_str _⟩, lossless_str _⟩, lossless_optional hfile⟩, lossless_bool _⟩,
    lossless_definitions hfields⟩, lossless_definitions hcomputed⟩

theorem lossless_object {o : ObjectType} (h : PlainFields o.fields) : (o.write form).2.Lossless := by
  have hfields := Json.lossless_obj.mp (lossless_fields form o.fields h)
  refine form.lossless_record ?_
  simp only [List.forall_mem_append]
  exact ⟨⟨⟨lossless_str _, lossless_str _⟩, lossless_str _⟩, lossless_definitions hfields⟩

theorem lossless_write {s : Schema} (h : s.Plain) : (s.write form).Lossless := by
  refine form.lossless_record (List.forall_mem_append.mpr ⟨lossless_definitions ?_, lossless_definitions ?_⟩)
  · exact List.forall_mem_map.mpr fun d hd => lossless_document (h.documents d hd)
  · exact List.forall_mem_map.mpr fun o ho => lossless_object (h.objects o ho)

end

/-- Whatever calls built a schema: what is written of it, in either layout and with the members
of each record in any order, is read back as the schema. Its kinds of other names must not be
named like a known kind, and its defaults and constants must be values that a text can carry: no
null, which is read as nothing, and no number that is printed otherwise than it was written. -/
theorem ofText_write (calls : List Addition) (form : Form) (layout : Json.Layout) (hplain : (run calls).Plain)
    (hn : ((run calls).write form).Nested 127) :
    Schema.ofText (String.ofList (Json.print layout 0 ((run calls).write form))) = .ok (run calls) :=
  readText_print _ (lossless_write hplain) layout (readSchema_write hplain (run_valid calls) (run_kinds calls) hn)

def draftAt : Json := .obj [("at", .arr [.num (.int (-1)), .null])]

def page : DocumentType where
  name := "Page"
  label := some "page"
  fileType := some .mdx
  isSingleton := some false
  fields := [
    ⟨{ name := "status", label := none, default := some draftAt }, .enum ["draft", "\"live\""]⟩,
    ⟨{ name := "blocks", label := some "Blocks", required := some true }, .polymorphicList [
      { labelField := some "text", kind := .inlineObject [⟨{ name := "text", label := none }, .list { kind := .string }⟩] },
      { kind := .object "Hero" }] "kind"⟩,
    ⟨{ name := "color", label := none }, .other "color"⟩]
  computed := [{ name := "slug", type := .string, resolve := "slugify" }]

def hero : ObjectType where
  name := "Hero"
  fields := [⟨{ name := "page", label := none }, .reference "Page"⟩]

/-- The document comes before the object it names, and is read after it. -/
def catalog : List Addition := [.document page, .object hero]

def backwards : Form where
  empties := false
  order := List.reverse
  order_perm := List.reverse_perm

def catalogWritten : Json := .obj [
  ("objectTypes", .obj [("Hero", .obj [
    ("fields", .obj [("page", .obj [("document", .str "Page"), ("type", .str "reference")])])])]),
  ("documentTypes", .obj [("Page", .obj [
    ("computedFields", .obj [("slug", .obj [("resolve", .str "slugify"), ("type", .str "string")])]),
    ("fields", .obj [
      ("status", .obj [("options", .arr [.str "draft", .str "\"live\""]), ("default", draftAt), ("type", .str "enum")]),
      ("blocks", .obj [("typeField", .str "kind"),
        ("of", .arr [
          .obj [("fields", .obj [("text", .obj [("of", .obj [("type", .str "string")]), ("type", .str "list")])]),
            ("type", .str "inline_object"), ("labelField", .str "text")],
          .obj [("object", .str "Hero"), ("type", .str "object")]]),
        ("required", .bool true), ("label", .str "Blocks"), ("type", .str "polymorphic_list")]),
      ("color", .obj [("type", .str "color")])]),
    ("isSingleton", .bool false), ("fileType", .str "mdx"), ("label", .str "page")])])]

theorem catalog_plain : (run catalog).Plain := by
  have hdocuments : (run catalog).documents.entries = [page] := by rfl
  have hobjects : (run catalog).objects.entries = [hero] := by rfl
  have hdraft : draftAt ≠ .null ∧ draftAt.Keyed ∧ draftAt.Lossless := by
    simp [draftAt, Json.keyed_obj, Json.keyed_arr, Json.lossless_obj, Json.lossless_arr, Json.lossless_num, Json.Keyed.num,
      Json.Keyed.null, Json.Lossless.null, Json.Exact]
  have hcolor : "color" ∉ Kind.knownNames := by decide
  constructor
  · rw [hdocuments]
    simp [page, plainFields_cons, plainFields_nil, FieldOf.plain_iff, holds_iff, Kind.items, hdraft, hcolor]
  · rw [hobjects]
    simp [hero, plainFields_cons, plainFields_nil, FieldOf.plain_iff, holds_iff, Kind.items]

theorem catalog_ofText : (run catalog).Plain ∧ ((run catalog).write backwards).Nested 127 ∧
    Schema.ofText catalogWritten.pretty = .ok (run catalog) := by
  have hwritten : (run catalog).write backwards = catalogWritten := by rfl
  have hkept : Tree.keep 127 catalogWritten.tree = .ok catalogWritten := by rfl
  have hn : ((run catalog).write backwards).Nested 127 := hwritten ▸ (Tree.keep_nested hkept).1
  have hread := ofText_write catalog backwards .pretty catalog_plain hn
  exact ⟨catalog_plain, hn, hwritten ▸ hread⟩

end Schema

end TypedContent

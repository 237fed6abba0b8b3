import Mathlib.Data.List.Nodup
import TypedContent.Proofs.Package.Statements

/-!
# Names of the generated modules

The names of definitions become names of types, and with `all` in front names of constants. They
differ from each other, but the schema does not hold them against the names that the modules
bring themselves. So types are declared once unless a definition has one of those names, and
constants unless a document type is called `Documents`.
-/

namespace TypedContent

def TypeScript.Definition.table : TypeScript.Definition → TableKind
  | .document _ => .document
  | .object _ => .object

namespace Package

open TypeScript

/-- The types that the declaration module has for any schema. -/
def fixedTypes : List String := [
  "Markdown", "IsoDateTimeString", "ContentgenGenTypes", "DocumentTypeMap", "AllTypes", "AllTypeNames",
  "DocumentTypes", "DocumentTypeNames", "ObjectTypes", "ObjectTypeNames"]

def builtinTypes : List String := ["string", "number", "boolean", "any", "never"]

def renderedNames (c : Canonical.Schema) : List String := (sortedDocuments c ++ sortedObjects c).map (·.name)

/-- Every type name stands for one type: it is declared once, a rendered type takes no built-in
name, and a reference names the type of the definition that it is to. -/
structure TypesUnambiguous (c : Canonical.Schema) (o : PackageOptions) : Prop where
  nodup : (declarationModule c o).types.Nodup
  not_builtin : ∀ name ∈ renderedNames c, name ∉ builtinTypes
  meaning : ∀ fields ∈ c.fieldLists, ∀ l, Makes fields l → ∃ d ∈ definitions c,
    d.table = l.table ∧ d.name = l.target ∧ (declarationModule c o).declaring l.target = [definitionStatement d]

variable {c : Canonical.Schema} {o : PackageOptions}

/-! ## Names by statement -/

theorem flatMap_names {α : Type} {statement : α → Statement} {names : Statement → List String} {name : α → String}
    (h : ∀ x, names (statement x) = [name x]) (xs : List α) : (xs.map statement).flatMap names = xs.map name := by
  rw [List.flatMap_map, List.map_eq_flatMap]
  simp only [h]

theorem flatMap_no_names {α : Type} {statement : α → Statement} {names : Statement → List String}
    (h : ∀ x, names (statement x) = []) (xs : List α) : (xs.map statement).flatMap names = [] := by
  simp [List.flatMap_map, h]

theorem flatten_definitionBlocks (ds : List Definition) :
    (ds.map fun d => [definitionStatement d]).flatten = ds.map definitionStatement := by
  rw [← List.flatMap_def, ← List.map_eq_flatMap]

/-! ## Types -/

theorem types_headBlocks (documents objects : List String) (o : PackageOptions) :
    (headBlocks documents objects o).flatten.flatMap (·.types) = fixedTypes := by
  have hlist : (headBlocks documents objects o).flatten.flatMap (·.types) = [
      markdownType, dateType, "ContentgenGenTypes", "DocumentTypeMap", "AllTypes", "AllTypeNames",
      "Document" ++ "Types", "Document" ++ "TypeNames", "Object" ++ "Types", "Object" ++ "TypeNames"] := rfl
  rw [hlist]
  decide

theorem types_constantStatements (names : List String) : (constantStatements names).flatMap (·.types) = [] := by
  rw [constantStatements, List.flatMap_append, flatMap_no_names fun _ => rfl]
  rfl

theorem types_declarationModule (c : Canonical.Schema) (o : PackageOptions) :
    (declarationModule c o).types = fixedTypes ++ renderedNames c := by
  have hdefinition : ∀ ds : List Definition, (ds.map definitionStatement).flatMap (·.types) = ds.map (·.name) :=
    flatMap_names fun _ => rfl
  simp only [Module.types, declarationModule, List.flatten_append, List.flatMap_append, types_headBlocks,
    flatten_definitionBlocks, hdefinition, List.flatten_cons, List.flatten_nil, types_constantStatements,
    renderedNames, List.map_append, List.append_assoc]
  rfl

theorem renderedNames_perm (c : Canonical.Schema) : (renderedNames c).Perm (c.documents.names ++ c.objects.names) := by
  have hdocuments : ((sortedDocuments c).map (·.name)).Perm c.documents.names := by
    rw [sortedDocuments, List.map_map]
    exact (List.mergeSort_perm _ _).map _
  have hobjects : ((sortedObjects c).map (·.name)).Perm c.objects.names := by
    rw [sortedObjects, List.map_map]
    exact (List.mergeSort_perm _ _).map _
  rw [renderedNames, List.map_append]
  exact hdocuments.append hobjects

theorem types_nodup_iff (h : (c.documents.names ++ c.objects.names).Nodup) :
    (declarationModule c o).types.Nodup ↔ ∀ name ∈ renderedNames c, name ∉ fixedTypes := by
  have hfixed : fixedTypes.Nodup := by decide
  rw [types_declarationModule, List.nodup_append', (renderedNames_perm c).nodup_iff]
  simp only [hfixed, h, true_and]
  exact List.disjoint_comm

/-! ## References -/

/-- If the parts of a list have nothing in common, an element of one part finds that part. -/
theorem filter_of_nodup_flatMap {α β : Type} [DecidableEq β] {f : α → List β} {x : α} {b : β} (hb : b ∈ f x) :
    ∀ {xs : List α}, (xs.flatMap f).Nodup → x ∈ xs → xs.filter (b ∈ f ·) = [x]
  | y :: ys, hn, hx => by
    rw [List.flatMap_cons, List.nodup_append'] at hn
    obtain ⟨_, hys, hdisjoint⟩ := hn
    rcases List.mem_cons.mp hx with rfl | hx
    · have hrest : ys.filter (b ∈ f ·) = [] := by
        refine List.filter_eq_nil_iff.mpr fun z hz hbz => ?_
        exact hdisjoint hb (List.mem_flatMap.mpr ⟨z, hz, by simpa using hbz⟩)
      rw [List.filter_cons_of_pos (by simpa using hb), hrest]
    · have hy : b ∉ f y := fun hby => hdisjoint hby (List.mem_flatMap.mpr ⟨x, hx, hb⟩)
      rw [List.filter_cons_of_neg (by simpa using hy), filter_of_nodup_flatMap hb hys hx]

theorem definitionStatement_mem {d : Definition} (h : d ∈ definitions c) :
    definitionStatement d ∈ (declarationModule c o).flatten := by
  have hmem : [definitionStatement d] ∈ declarationModule c o := by
    unfold declarationModule
    simp only [List.mem_append, List.mem_map]
    rcases List.mem_append.mp h with h | h
    · obtain ⟨x, hx, rfl⟩ := List.mem_map.mp h
      refine Or.inl (Or.inl (Or.inr ⟨.document x, ?_, rfl⟩))
      exact List.mem_map.mpr ⟨x, List.mem_mergeSort.mpr hx, rfl⟩
    · obtain ⟨x, hx, rfl⟩ := List.mem_map.mp h
      refine Or.inr ⟨.object x, ?_, rfl⟩
      exact List.mem_map.mpr ⟨x, List.mem_mergeSort.mpr hx, rfl⟩
  exact List.mem_flatten.mpr ⟨_, hmem, List.mem_singleton.mpr rfl⟩

theorem declaring_definition (hn : (declarationModule c o).types.Nodup) {d : Definition} (h : d ∈ definitions c) :
    (declarationModule c o).declaring d.name = [definitionStatement d] :=
  filter_of_nodup_flatMap (f := Statement.types) (List.mem_singleton.mpr rfl) hn (definitionStatement_mem h)

theorem definition_of_name {table : TableKind} {name : String} (h : name ∈ c.names table) :
    ∃ d ∈ definitions c, d.table = table ∧ d.name = name := by
  cases table with
  | document =>
    obtain ⟨x, hx, rfl⟩ := List.mem_map.mp h
    exact ⟨.document x, List.mem_append_left _ (List.mem_map.mpr ⟨x, hx, rfl⟩), rfl, rfl⟩
  | object =>
    obtain ⟨x, hx, rfl⟩ := List.mem_map.mp h
    exact ⟨.object x, List.mem_append_right _ (List.mem_map.mpr ⟨x, hx, rfl⟩), rfl, rfl⟩

/-- Whatever calls built the schema: the types of its declaration module are unambiguous if and
only if no definition that is rendered has a name of the module's own or a built-in one. -/
theorem types_unambiguous_iff (calls : List Addition) (c : Canonical.Schema) (o : PackageOptions)
    (h : (Schema.run calls).normalize = .ok c) :
    (declarationModule c o).text = declarations c o ∧
      (TypesUnambiguous c o ↔
        ∀ name ∈ c.documents.names ++ c.objects.names, name ∉ fixedTypes ∧ name ∉ builtinTypes) := by
  obtain ⟨found, hn⟩ := Schema.normalized_of_ok h
  have hnames := hn.names_nodup (Schema.run_valid calls)
  refine ⟨text_declarationModule c o, ?_⟩
  simp only [← (renderedNames_perm c).mem_iff]
  constructor
  · intro hu name hname
    exact ⟨(types_nodup_iff hnames).mp hu.nodup name hname, hu.not_builtin name hname⟩
  · intro hall
    have hnodup : (declarationModule c o).types.Nodup := (types_nodup_iff hnames).mpr fun name hm => (hall name hm).1
    refine ⟨hnodup, fun name hm => (hall name hm).2, fun fields hf l hl => ?_⟩
    obtain ⟨d, hd, ht, hname⟩ := definition_of_name (hn.closed fields hf l hl)
    exact ⟨d, hd, ht, hname, hname ▸ declaring_definition hnodup hd⟩

theorem blog_types_unambiguous :
    (Schema.run blog).normalize = .ok blogCanonical ∧
      (declarationModule blogCanonical {}).text = declarations blogCanonical {} ∧ TypesUnambiguous blogCanonical {} := by
  have h : (Schema.run blog).normalize = .ok blogCanonical := by cbv
  obtain ⟨htext, hiff⟩ := types_unambiguous_iff blog blogCanonical {} h
  exact ⟨h, htext, hiff.mpr (by decide)⟩

/-- One document type of the given name, and nothing else. -/
def single (name : String) : List Addition := [.document { name, fileType := some .json }]

def singleCanonical (name : String) : Canonical.Schema where
  documents := ⟨.document, [{ name, label := name, isSingleton := false, fields := [], computed := [] }]⟩
  objects := ⟨.object, []⟩

theorem allTypes_declared_twice :
    (Schema.run (single "AllTypes")).normalize = .ok (singleCanonical "AllTypes") ∧
      ¬(declarationModule (singleCanonical "AllTypes") {}).types.Nodup := by
  refine ⟨by cbv, fun hn => ?_⟩
  have hrendered : "AllTypes" ∈ renderedNames (singleCanonical "AllTypes") := by
    rw [(renderedNames_perm _).mem_iff]
    decide
  exact (types_nodup_iff (by decide)).mp hn "AllTypes" hrendered (by decide)

/-! ## Constants -/

theorem constants_nodup_iff {names : List String} (h : names.Nodup) :
    ("isType" :: (names.map dataConstant ++ ["allDocuments"])).Nodup ↔ "Documents" ∉ names := by
  have hinj : Function.Injective dataConstant := fun _ _ e => (String.append_right_inj "all").mp e
  have htype : ∀ name, dataConstant name ≠ "isType" := by
    intro name e
    have hchars := congrArg String.toList e
    simp [dataConstant] at hchars
  have hall : "allDocuments" ∈ names.map dataConstant ↔ "Documents" ∈ names := by
    rw [show "allDocuments" = dataConstant "Documents" by decide, List.mem_map_of_injective hinj]
  rw [List.nodup_cons, ← List.concat_eq_append, List.nodup_concat, hall]
  simp [htype, h.map hinj]

theorem constants_dataStatements (names : List String) :
    (dataStatements names).flatMap (·.constants) = names.map dataConstant := by
  rw [dataStatements, List.flatMap_append, flatMap_no_names fun _ => rfl, flatMap_names fun _ => rfl]
  rfl

theorem constants_barrelModule (c : Canonical.Schema) (o : PackageOptions) :
    (barrelModule c o).constants = "isType" :: (c.documents.names.map dataConstant ++ ["allDocuments"]) := by
  unfold barrelModule Module.constants
  rw [List.flatten_append, List.flatten_append, List.flatMap_append, List.flatMap_append]
  by_cases h : c.documents.names = []
  · simp only [h]
    rfl
  · rw [if_neg (by simpa using h), List.flatten_singleton, constants_dataStatements]
    rfl

theorem constants_constantStatements (names : List String) :
    (constantStatements names).flatMap (·.constants) = names.map dataConstant ++ ["allDocuments"] := by
  rw [constantStatements, List.flatMap_append, flatMap_names fun _ => rfl]
  rfl

theorem constants_declarationModule (c : Canonical.Schema) (o : PackageOptions) :
    (declarationModule c o).constants = "isType" :: (c.documents.names.map dataConstant ++ ["allDocuments"]) := by
  have hhead : ∀ documents objects, (headBlocks documents objects o).flatten.flatMap (·.constants) = ["isType"] :=
    fun _ _ => rfl
  have hdefinition : ∀ ds : List Definition, (ds.map definitionStatement).flatMap (·.constants) = [] :=
    flatMap_no_names fun _ => rfl
  have hremark : ∀ line, [Statement.remark line].flatMap (·.constants) = [] := fun _ => rfl
  simp only [Module.constants, declarationModule, List.flatten_append, List.flatMap_append, hhead,
    flatten_definitionBlocks, hdefinition, List.flatten_cons, List.flatten_nil, constants_constantStatements, hremark,
    List.append_nil, List.singleton_append]

/-- Whatever calls built the schema: the constants of the barrel module differ, and so do those
of the declaration module, if and only if no document type is called `Documents`. -/
theorem constants_distinct_iff (calls : List Addition) (c : Canonical.Schema) (o : PackageOptions)
    (h : (Schema.run calls).normalize = .ok c) :
    ((barrelModule c o).text = barrel c o ∧ ((barrelModule c o).constants.Nodup ↔ "Documents" ∉ c.documents.names)) ∧
      ((declarationModule c o).text = declarations c o ∧
        ((declarationModule c o).constants.Nodup ↔ "Documents" ∉ c.documents.names)) := by
  obtain ⟨found, hn⟩ := Schema.normalized_of_ok h
  rw [constants_barrelModule, constants_declarationModule]
  have hiff := constants_nodup_iff hn.documents_nodup
  exact ⟨⟨text_barrelModule c o, hiff⟩, text_declarationModule c o, hiff⟩

theorem blog_constants_distinct :
    (Schema.run blog).normalize = .ok blogCanonical ∧
      ((barrelModule blogCanonical {}).text = barrel blogCanonical {} ∧ (barrelModule blogCanonical {}).constants.Nodup) ∧
      ((declarationModule blogCanonical {}).text = declarations blogCanonical {} ∧
        (declarationModule blogCanonical {}).constants.Nodup) := by
  have h : (Schema.run blog).normalize = .ok blogCanonical := by cbv
  obtain ⟨⟨hbarrel, hbarrelNames⟩, hdeclarations, hnames⟩ := constants_distinct_iff blog blogCanonical {} h
  have hnew : "Documents" ∉ blogCanonical.documents.names := by decide
  exact ⟨h, ⟨hbarrel, hbarrelNames.mpr hnew⟩, hdeclarations, hnames.mpr hnew⟩

theorem allDocuments_declared_twice :
    (Schema.run (single "Documents")).normalize = .ok (singleCanonical "Documents") ∧
      ¬(barrelModule (singleCanonical "Documents") {}).constants.Nodup := by
  refine ⟨by cbv, ?_⟩
  rw [constants_barrelModule]
  decide

end Package

end TypedContent

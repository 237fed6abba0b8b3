import Mathlib
import TypedContent.Proofs.Canonical.Reordering
import TypedContent.Proofs.Package.ModuleLines

/-!
# What the modules of a package enumerate

The barrel module and the declaration module each list the document types several times, in
declaration order or by name, and each data module defines one constant. Read off the lines of
their texts, all these lists are of the same types, and each import is of a constant that its
file defines.
-/

namespace TypedContent

namespace Package

open TypeScript

/-! ## Parts of a module -/

namespace Line

def exported? : Line → Option String
  | .exportAll file => some file
  | _ => none

def imported? : Line → Option (String × String)
  | .importConstant name file => some (name, file)
  | _ => none

def constant? : Line → Option (String × String)
  | .constant name value => some (name, value)
  | _ => none

def ambient? : Line → Option (String × String)
  | .ambientConstant name expr => some (name, expr)
  | _ => none

def declared? : Line → Option (String × List String)
  | .type name expr => some (name, expr)
  | _ => none

def entry? : Line → Option (String × String)
  | .entry key expr => some (key, expr)
  | _ => none

def isRemark : Line → Bool
  | .remark _ => true
  | _ => false

/-- The line is of one of the lists of the barrel module. -/
def isListed : Line → Bool
  | .exportAll _ | .importConstant .. | .constant .. => true
  | _ => false

/-- The line opens a section of the declaration module, declares a constant or a type, or is part
of a statement or a comment. -/
def isDeclaring : Line → Bool
  | .remark _ | .ambientConstant .. | .type .. | .entry .. | .inner _ => true
  | _ => false

end Line

/-- An inner line is in no list. -/
structure Line.Unlisted (l : Line) : Prop where
  declared : l.declared? = none
  ambient : l.ambient? = none
  remark : l.isRemark = false
  declaring : l.isDeclaring = true

theorem Line.unlisted_of_isInner {l : Line} (h : l.isInner = true) : l.Unlisted := by
  rcases Line.isInner_iff.mp h with ⟨key, expr, rfl⟩ | ⟨words, rfl⟩ <;> exact ⟨rfl, rfl, rfl, rfl⟩

section
variable {lines : List Line} (h : ∀ l ∈ lines, l.isInner = true)
include h

theorem declared_inner : lines.filterMap Line.declared? = [] :=
  List.filterMap_eq_nil_iff.mpr fun l hl => (Line.unlisted_of_isInner (h l hl)).declared

theorem ambient_inner : lines.filterMap Line.ambient? = [] :=
  List.filterMap_eq_nil_iff.mpr fun l hl => (Line.unlisted_of_isInner (h l hl)).ambient

theorem others_inner : lines.filter (!·.isDeclaring) = [] :=
  List.filter_eq_nil_iff.mpr fun l hl => by simp [(Line.unlisted_of_isInner (h l hl)).declaring]

end

/-- What stands for the type where it is declared first. -/
def expression? (name : String) (lines : List Line) : Option (List String) :=
  (lines.filterMap Line.declared?).lookup name

/-- The entries of the type where it is declared first, up to the line that closes it. -/
def entriesOf? (name : String) : List Line → Option (List (String × String))
  | .type other expr :: lines =>
    if other = name then
      if expr = ["\x7b\x7d"] then some []
      else if expr = ["\x7b"] ∧ (lines.dropWhile Line.isEntry).head? = some closeLine then
        some ((lines.takeWhile Line.isEntry).filterMap Line.entry?)
      else none
    else entriesOf? name lines
  | _ :: lines => entriesOf? name lines
  | [] => none

/-- What comes under a remark, up to the next one. -/
def sectionOf (heading : List String) (lines : List Line) : List Line :=
  ((lines.dropWhile (· ≠ .remark heading)).drop 1).takeWhile (!·.isRemark)

/-- The barrel module exports all of the data modules, imports their constants and spreads them.
All that it has besides is the notice and a name from the runtime module. -/
structure BarrelAgrees (names : List String) (lines : List Line) : Prop where
  exports : lines.filterMap Line.exported? = names.map fun n => "all" ++ n ++ ".js"
  imports : lines.filterMap Line.imported? = names.map fun n => ("all" ++ n, "all" ++ n ++ ".js")
  constants : lines.filterMap Line.constant? =
    [("allDocuments", "[" ++ ", ".intercalate (names.map fun n => "...all" ++ n) ++ "]")]
  others : ∃ source, lines.filter (!·.isListed) = [noticeLine, .exportFrom "isType" source]

/-- The constants come in declaration order, the types by name. No other types and constants are
declared, and no line is of a spelling that is not known. -/
structure DeclarationsAgree (names documents objects : List String) (lines : List Line) : Prop where
  constants : lines.filterMap Line.ambient? =
    names.map (fun n => ("all" ++ n, n ++ "[]")) ++ [("allDocuments", "DocumentTypes[]")]
  mapForm : expression? "DocumentTypeMap" lines = some (if documents.isEmpty then ["\x7b\x7d"] else ["\x7b"])
  typeMap : entriesOf? "DocumentTypeMap" lines = some (documents.map fun n => (n, n))
  documentTypes : expression? "DocumentTypes" lines = some (unionWords documents)
  objectTypes : expression? "ObjectTypes" lines = some (unionWords objects)
  renderedDocuments : (sectionOf ["Document", "types"] lines).filterMap Line.declared? =
    documents.map fun n => (n, ["\x7b"])
  renderedObjects : (sectionOf ["Object", "types"] lines).filterMap Line.declared? = objects.map fun n => (n, ["\x7b"])
  types : (lines.filterMap Line.declared?).map Prod.fst = ["IsoDateTimeString", "DocumentTypeMap", "AllTypes",
    "AllTypeNames", "DocumentTypes", "DocumentTypeNames", "ObjectTypes", "ObjectTypeNames"] ++ documents ++ objects
  others : ∃ runtime : String, lines.filter (!·.isDeclaring) = [.importType "Markdown" (runtime ++ "/core"),
    .exportFrom "isType" (runtime ++ "/client"), .exportType "Markdown", .interface "ContentgenGenTypes", .openGlobal]

/-! ## The barrel module -/

theorem barrel_agrees {c : Canonical.Schema} {o : PackageOptions} (hn : ∀ n ∈ c.documents.names, Word n)
    (ho : OneLine o.runtimeModule) : BarrelAgrees c.documents.names (linesOf (barrel c o)) := by
  have hspread : spread c.documents.names =
      "[" ++ ", ".intercalate (c.documents.names.map fun n => "...all" ++ n) ++ "]" := by
    have hname : ∀ n, "..." ++ dataConstant n = "...all" ++ n := fun n => (String.append_assoc ..).symm
    simp only [spread, hname]
  rw [linesOf_barrel hn ho, noticeLine, hspread]
  constructor
  case others =>
    refine ⟨o.runtimeModule ++ "/client", ?_⟩
    simp only [List.filter_append, List.filter_cons, List.filter_map, List.filter_nil, Function.comp_def, Line.isListed,
      Bool.not_true, Bool.not_false, Bool.false_eq_true, if_true, if_false, List.filter_false, List.map_nil,
      List.append_nil, noticeLine]
  all_goals simp only [List.filterMap_cons, List.filterMap_append, List.filterMap_map, List.filterMap_nil,
    Function.comp_def, Line.exported?, Line.imported?, Line.constant?, List.filterMap_eq_map', List.filterMap_none,
    List.append_nil, List.nil_append]
  · rfl
  · rfl

/-! ## The declaration module -/

theorem sectionOf_append {heading : List String} {before : List Line} (h : .remark heading ∉ before)
    (after : List Line) : sectionOf heading (before ++ .remark heading :: after) = after.takeWhile (!·.isRemark) := by
  have hskipped : ∀ l ∈ before, decide (l ≠ .remark heading) = true := fun l hl => decide_eq_true fun e => h (e ▸ hl)
  rw [sectionOf, List.dropWhile_append_of_pos hskipped, List.dropWhile_cons_of_neg (by simp)]
  rfl

theorem declared_definitionLines {ds : List Definition} (h : WellNamed ds) :
    (definitionLines ds).filterMap Line.declared? = ds.map fun d => (d.name, ["\x7b"]) := by
  have hone : ∀ d ∈ ds, (linesOf (definitionStatement d).text).filterMap Line.declared? = [(d.name, ["\x7b"])] := by
    intro d hd
    obtain ⟨before, after, hinner, e⟩ := linesOf_definitionStatement (h d hd).1 (h d hd).2
    rw [List.forall_mem_append] at hinner
    rw [e, List.filterMap_append, List.filterMap_cons, declared_inner hinner.1, declared_inner hinner.2]
    rfl
  rw [definitionLines, List.filterMap_flatMap, List.map_eq_flatMap]
  exact List.flatMap_congr hone

/-- Of the lists, a definition is in that of the declared types only. -/
theorem definitionLines_cases {ds : List Definition} (h : WellNamed ds) {l : Line} (hl : l ∈ definitionLines ds) :
    l.isRemark = false ∧ l.ambient? = none ∧ l.isDeclaring = true := by
  rcases mem_definitionLines h l hl with hl | ⟨name, rfl⟩
  · have hunlisted := Line.unlisted_of_isInner hl
    exact ⟨hunlisted.remark, hunlisted.ambient, hunlisted.declaring⟩
  · exact ⟨rfl, rfl, rfl⟩

theorem no_remark {ds : List Definition} (h : WellNamed ds) : ∀ l ∈ definitionLines ds, (!l.isRemark) = true := by
  intro l hl
  obtain ⟨hremark, -, -⟩ := definitionLines_cases h hl
  rw [hremark]
  rfl

theorem no_ambient {ds : List Definition} (h : WellNamed ds) : (definitionLines ds).filterMap Line.ambient? = [] := by
  refine List.filterMap_eq_nil_iff.mpr fun l hl => ?_
  obtain ⟨-, hambient, -⟩ := definitionLines_cases h hl
  exact hambient

theorem no_others {ds : List Definition} (h : WellNamed ds) : (definitionLines ds).filter (!·.isDeclaring) = [] := by
  refine List.filter_eq_nil_iff.mpr fun l hl => ?_
  obtain ⟨-, -, hdeclaring⟩ := definitionLines_cases h hl
  simp [hdeclaring]

theorem inner_mapEntries (names : List String) : ∀ l ∈ mapEntries names, l.isInner = true := by
  unfold mapEntries
  split
  · simp
  · rw [List.forall_mem_append, List.forall_mem_map, List.forall_mem_singleton]
    exact ⟨fun _ _ => rfl, rfl⟩

theorem declared_headLines (documents objects : List String) (o : PackageOptions) :
    (headLines documents objects o).filterMap Line.declared? =
      [("IsoDateTimeString", ["string"]), ("DocumentTypeMap", if documents.isEmpty then ["\x7b\x7d"] else ["\x7b"]),
        ("AllTypes", ["DocumentTypes", "|", "ObjectTypes"]),
        ("AllTypeNames", ["DocumentTypeNames", "|", "ObjectTypeNames"]), ("DocumentTypes", unionWords documents),
        ("DocumentTypeNames", ["DocumentTypes['_typeName']"]), ("ObjectTypes", unionWords objects),
        ("ObjectTypeNames", ["ObjectTypes['_typeName']"])] := by
  simp only [headLines, mapLines, noticeLine, closeLine, List.filterMap_append, List.filterMap_cons,
    List.filterMap_nil, Line.declared?, declared_inner (inner_mapEntries documents), List.cons_append, List.nil_append]

theorem ambient_headLines (documents objects : List String) (o : PackageOptions) :
    (headLines documents objects o).filterMap Line.ambient? = [] := by
  simp only [headLines, mapLines, noticeLine, closeLine, List.filterMap_append, List.filterMap_cons,
    List.filterMap_nil, Line.ambient?, ambient_inner (inner_mapEntries documents), List.append_nil]

theorem others_headLines (documents objects : List String) (o : PackageOptions) :
    (headLines documents objects o).filter (!·.isDeclaring) =
      [.importType "Markdown" (o.runtimeModule ++ "/core"), .exportFrom "isType" (o.runtimeModule ++ "/client"),
        .exportType "Markdown", .interface "ContentgenGenTypes", .openGlobal] := by
  have hmap : (mapLines documents).filter (!·.isDeclaring) = [] :=
    (List.filter_cons_of_neg (by simp [Line.isDeclaring])).trans (others_inner (inner_mapEntries documents))
  rw [headLines, List.filter_append, List.filter_append, hmap]
  rfl

theorem ambient_constantLines (names : List String) : (constantLines names).filterMap Line.ambient? =
    names.map (fun n => ("all" ++ n, n ++ "[]")) ++ [("allDocuments", "DocumentTypes[]")] := by
  rw [constantLines, List.filterMap_append, List.filterMap_map]
  simp only [Function.comp_def, Line.ambient?, List.filterMap_eq_map']
  rfl

theorem others_constantLines (names : List String) : (constantLines names).filter (!·.isDeclaring) = [] := by
  rw [constantLines, List.filter_eq_nil_iff, List.forall_mem_append, List.forall_mem_map, List.forall_mem_singleton]
  exact ⟨fun _ _ => by simp [Line.isDeclaring], by simp [Line.isDeclaring]⟩

theorem declared_constantLines (names : List String) : (constantLines names).filterMap Line.declared? = [] := by
  rw [constantLines, List.filterMap_eq_nil_iff, List.forall_mem_append, List.forall_mem_map, List.forall_mem_singleton]
  exact ⟨fun _ _ => rfl, rfl⟩

theorem expression_headLines {name : String} {expr : List String} {documents objects : List String} {o : PackageOptions}
    (h : ((headLines documents objects o).filterMap Line.declared?).lookup name = some expr) (rest : List Line) :
    expression? name (headLines documents objects o ++ rest) = some expr := by
  rw [expression?, List.filterMap_append, List.lookup_append, h, Option.some_or]

theorem entries_headLines (documents objects : List String) (o : PackageOptions) (rest : List Line) :
    entriesOf? "DocumentTypeMap" (headLines documents objects o ++ rest) = some (documents.map fun n => (n, n)) := by
  have hentries : ∀ l ∈ documents.map fun n => Line.entry n n, l.isEntry = true :=
    List.forall_mem_map.mpr fun _ _ => rfl
  have htake : ∀ lines : List Line,
      (((documents.map fun n => Line.entry n n) ++ closeLine :: lines).takeWhile Line.isEntry).filterMap Line.entry? =
        documents.map fun n => (n, n) := by
    intro lines
    rw [List.takeWhile_append_of_pos hentries, List.takeWhile_cons_of_neg (by decide), List.append_nil,
      List.filterMap_map]
    exact List.filterMap_eq_map' ▸ rfl
  have hclosed : ∀ lines : List Line,
      (((documents.map fun n => Line.entry n n) ++ closeLine :: lines).dropWhile Line.isEntry).head? =
        some closeLine := by
    intro lines
    rw [List.dropWhile_append_of_pos hentries, List.dropWhile_cons_of_neg (by decide), List.head?_cons]
  have hother : "IsoDateTimeString" ≠ "DocumentTypeMap" := by decide
  have hskip : ∀ lines, entriesOf? "DocumentTypeMap" (closeLine :: lines) = entriesOf? "DocumentTypeMap" lines :=
    fun _ => rfl
  have hopened : ["\x7b"] ≠ ["\x7b\x7d"] := by decide
  simp only [headLines, mapLines, noticeLine, List.cons_append, List.nil_append, List.append_assoc, entriesOf?,
    if_neg hother, hskip, if_true]
  cases documents with
  | nil => rfl
  | cons n names =>
    simp only [mapEntries, List.isEmpty_cons, Bool.false_eq_true, if_false, if_neg hopened, List.append_assoc,
      List.singleton_append, true_and]
    rw [if_pos (hclosed _), htake]

theorem remark_mem_start {heading : List String} {documents objects names : List String} {o : PackageOptions}
    (h : .remark heading ∈ headLines documents objects o ++ constantLines names) : .remark heading = noticeLine := by
  have hentries : .remark heading ∉ mapEntries documents :=
    fun hmem => absurd (inner_mapEntries documents _ hmem) (by simp [Line.isInner])
  simp only [headLines, mapLines, constantLines, closeLine, List.mem_append, List.mem_cons, List.mem_map, hentries,
    List.not_mem_nil, reduceCtorEq, and_false, exists_false, or_false] at h
  exact h

theorem declarations_agree {c : Canonical.Schema} {o : PackageOptions} (hn : ∀ n ∈ c.documents.names, Word n)
    (hd : WellNamed (sortedDocuments c)) (ho : WellNamed (sortedObjects c)) (hr : OneLine o.runtimeModule) :
    DeclarationsAgree c.documents.names ((sortedDocuments c).map (·.name)) ((sortedObjects c).map (·.name))
      (linesOf (declarations c o)) := by
  -- no remark that opens a section comes before it does
  have hdocument : .remark ["Document", "types"] ∉ headLines ((sortedDocuments c).map (·.name))
      ((sortedObjects c).map (·.name)) o ++ constantLines c.documents.names :=
    fun h => absurd (remark_mem_start h) (by decide)
  have hobject : .remark ["Object", "types"] ∉ headLines ((sortedDocuments c).map (·.name))
      ((sortedObjects c).map (·.name)) o ++ constantLines c.documents.names ++
        .remark ["Document", "types"] :: definitionLines (sortedDocuments c) := by
    rw [List.mem_append, List.mem_cons]
    rintro (h | h | h)
    · exact absurd (remark_mem_start h) (by decide)
    · exact absurd h (by decide)
    · exact absurd (no_remark hd _ h) (by decide)
  rw [linesOf_declarations hn hd ho hr]
  constructor
  case constants =>
    rw [List.filterMap_append, List.filterMap_append, ambient_headLines, ambient_constantLines, List.filterMap_cons,
      List.filterMap_append, List.filterMap_cons]
    simp only [Line.ambient?, no_ambient hd, no_ambient ho, List.nil_append, List.append_nil]
  case mapForm =>
    rw [List.append_assoc]
    exact expression_headLines (by rw [declared_headLines]; rfl) _
  case typeMap =>
    rw [List.append_assoc]
    exact entries_headLines _ _ _ _
  case documentTypes =>
    rw [List.append_assoc]
    exact expression_headLines (by rw [declared_headLines]; rfl) _
  case objectTypes =>
    rw [List.append_assoc]
    exact expression_headLines (by rw [declared_headLines]; rfl) _
  case renderedDocuments =>
    rw [sectionOf_append hdocument, List.takeWhile_append_of_pos (no_remark hd), List.takeWhile_cons_of_neg (by decide),
      List.append_nil, declared_definitionLines hd, List.map_map]
    rfl
  case renderedObjects =>
    rw [← List.cons_append, ← List.append_assoc, sectionOf_append hobject, List.takeWhile_eq_self_iff.mpr (no_remark ho),
      declared_definitionLines ho, List.map_map]
    rfl
  case types =>
    simp only [List.filterMap_append, List.filterMap_cons, declared_headLines, declared_constantLines,
      declared_definitionLines hd, declared_definitionLines ho, Line.declared?, List.map_append, List.map_map,
      Function.comp_def, List.append_assoc]
    rfl
  case others =>
    refine ⟨o.runtimeModule, ?_⟩
    have hremark : ∀ words lines,
        (Line.remark words :: lines).filter (!·.isDeclaring) = lines.filter (!·.isDeclaring) :=
      fun _ _ => rfl
    rw [List.filter_append, List.filter_append, others_headLines, others_constantLines, hremark, List.filter_append,
      no_others hd, hremark, no_others ho]
    rfl

/-! ## The package -/

theorem names_sorted {α : Type} [Named α] (t : Table α) :
    t.sorted.map Named.name = t.names.mergeSort fun a b => decide (a ≤ b) :=
  List.map_mergeSort fun _ _ _ _ => rfl

theorem wellNamed_definitions {s : Schema} {found : List ObjectType} {c : Canonical.Schema} (hn : s.Normalized found c)
    (hv : s.Valid) : WellNamed (definitions c) := by
  have hid := names_identifier hn hv
  intro d hd
  obtain ⟨table, hname⟩ := definitions_name hd
  refine ⟨word_identifier (hid table _ hname), fun l hl => ?_⟩
  exact oneLine_identifier (hid _ _ (hn.closed _ (definitions_fields hd) l ((mem_links_iff _).mp hl)))

/-- Whatever calls built the schema and whatever the cache holds: the package has, after its three
modules, one file for each document type in declaration order, and each list in the modules is of
these types, in that order or by name. What the modules have besides the lists is fixed, and each
file defines the one constant that is imported from it. The runtime module must be named on one
line. -/
theorem modules_agree (calls : List Addition) (c : Canonical.Schema) (cache : Cache) (o : PackageOptions)
    (h : (Schema.run calls).normalize = .ok c) (hr : OneLine o.runtimeModule) :
    c.documents.names = (Schema.run calls).documents.names ∧
      ∃ (manifest barrel declarations : String) (data : String → String),
        build c cache o = [⟨"package.json", manifest⟩, ⟨"index.js", barrel⟩, ⟨"index.d.ts", declarations⟩] ++
          c.documents.names.map (fun n => ⟨"all" ++ n ++ ".js", data n⟩) ∧
        BarrelAgrees c.documents.names (linesOf barrel) ∧
        DeclarationsAgree c.documents.names (c.documents.names.mergeSort fun a b => decide (a ≤ b))
          (c.objects.names.mergeSort fun a b => decide (a ≤ b)) (linesOf declarations) ∧
        ∀ n ∈ c.documents.names, ∃ (value : String) (after : List Line),
          linesOf (data n) = .constant ("all" ++ n) value :: after ∧ ∀ l ∈ after, l.isInner = true := by
  obtain ⟨found, hn⟩ := Schema.normalized_of_ok h
  have hnames : ∀ n ∈ c.documents.names, Word n :=
    fun n hmem => word_identifier (names_identifier hn (Schema.run_valid calls) .document n hmem)
  have hnamed := wellNamed_definitions hn (Schema.run_valid calls)
  have hd : WellNamed (sortedDocuments c) := by
    intro d hd
    obtain ⟨x, hx, rfl⟩ := List.mem_map.mp hd
    exact hnamed _ (List.mem_append_left _ (List.mem_map.mpr ⟨x, List.mem_mergeSort.mp hx, rfl⟩))
  have ho : WellNamed (sortedObjects c) := by
    intro d hd
    obtain ⟨x, hx, rfl⟩ := List.mem_map.mp hd
    exact hnamed _ (List.mem_append_right _ (List.mem_map.mpr ⟨x, List.mem_mergeSort.mp hx, rfl⟩))
  have hdocuments : (sortedDocuments c).map (·.name) = c.documents.names.mergeSort fun a b => decide (a ≤ b) := by
    rw [← names_sorted, sortedDocuments, List.map_map]
    rfl
  have hobjects : (sortedObjects c).map (·.name) = c.objects.names.mergeSort fun a b => decide (a ≤ b) := by
    rw [← names_sorted, sortedObjects, List.map_map]
    rfl
  have hdeclarations := declarations_agree (o := o) hnames hd ho hr
  rw [hdocuments, hobjects] at hdeclarations
  exact ⟨hn.document_names, _, _, _, _, build_eq hn.documents_nodup cache o, barrel_agrees hnames hr, hdeclarations,
    fun n hmem => linesOf_dataModule _ (hnames n hmem)⟩

/-- The book comes after the post in declaration order and before it by name. -/
theorem shelf_modules_agree :
    (Schema.run shelf).normalize = .ok shelfCanonical ∧ OneLine ({} : PackageOptions).runtimeModule ∧
      ∃ (manifest barrel declarations : String) (data : String → String),
        build shelfCanonical blogCache {} = [⟨"package.json", manifest⟩, ⟨"index.js", barrel⟩,
          ⟨"index.d.ts", declarations⟩, ⟨"allPost.js", data "Post"⟩, ⟨"allBook.js", data "Book"⟩] ∧
        BarrelAgrees ["Post", "Book"] (linesOf barrel) ∧
        DeclarationsAgree ["Post", "Book"] ["Book", "Post"] ["Author", "Company"] (linesOf declarations) := by
  have hc : (Schema.run shelf).normalize = .ok shelfCanonical := by cbv
  have hr : OneLine ({} : PackageOptions).runtimeModule := by decide
  obtain ⟨-, manifest, barrel, declarations, data, hbuild, hbarrel, hdeclarations, -⟩ :=
    modules_agree shelf shelfCanonical blogCache {} hc hr
  have hdocuments : (shelfCanonical.documents.names.mergeSort fun a b => decide (a ≤ b)) = ["Book", "Post"] := by cbv
  have hobjects : (shelfCanonical.objects.names.mergeSort fun a b => decide (a ≤ b)) = ["Author", "Company"] := by cbv
  rw [hdocuments, hobjects] at hdeclarations
  exact ⟨hc, hr, manifest, barrel, declarations, data, hbuild, hbarrel, hdeclarations⟩

end Package

end TypedContent

import Mathlib
import TypedContent.Proofs.Package.StatementLines

/-!
# What the modules of a package say

The barrel module and the declaration module, read line by line. Both are the same lines for any
schema, but for the names that they list, the runtime module and the bodies of the definitions, in
which all lines are inner ones.
-/

namespace TypedContent

namespace Package

open TypeScript

/-! ## The barrel module -/

def noticeLine : Line := .remark ["NOTE", "This", "file", "is", "auto-generated", "by", "contentgen"]

theorem linesOf_notice :
    linesOf (Statement.remark "NOTE This file is auto-generated by contentgen").text = [noticeLine] := by
  decide

theorem linesOf_isTypeExport {o : PackageOptions} (h : OneLine o.runtimeModule) :
    linesOf (isTypeExport o).text = [.exportFrom "isType" (o.runtimeModule ++ "/client")] :=
  linesOf_exportFrom (by decide) (oneLine_append.mpr ⟨h, by decide⟩)

theorem flatMap_lines {α : Type} {statement : α → Statement} {line : α → Line} {xs : List α}
    (h : ∀ x ∈ xs, linesOf (statement x).text = [line x]) :
    (xs.map statement).flatMap (fun s => linesOf s.text) = xs.map line := by
  rw [List.flatMap_map, List.map_eq_flatMap]
  exact List.flatMap_congr h

theorem oneLine_spread {names : List String} (h : ∀ n ∈ names, Word n) : OneLine (spread names) := by
  unfold spread
  rw [oneLine_append, oneLine_append]
  refine ⟨⟨by decide, oneLine_intercalate (by decide) (List.forall_mem_map.mpr fun n hn => ?_)⟩, by decide⟩
  exact oneLine_append.mpr ⟨by decide, (word_dataConstant (h n hn)).2⟩

theorem linesOf_barrel {c : Canonical.Schema} {o : PackageOptions} (hn : ∀ n ∈ c.documents.names, Word n)
    (ho : OneLine o.runtimeModule) :
    linesOf (barrel c o) = [noticeLine, .exportFrom "isType" (o.runtimeModule ++ "/client")] ++
      c.documents.names.map (fun n => Line.exportAll (dataFile n)) ++
      c.documents.names.map (fun n => Line.importConstant (dataConstant n) (dataFile n)) ++
      [Line.constant "allDocuments" (spread c.documents.names)] := by
  have hexports := flatMap_lines fun n hmem => linesOf_exportAll (word_dataFile (hn n hmem))
  have himports := flatMap_lines fun n hmem =>
    linesOf_importConstant (word_dataConstant (hn n hmem)) (word_dataFile (hn n hmem))
  have hspread := linesOf_constant (by decide : Word "allDocuments") (oneLine_spread hn)
  have hblock : (if c.documents.names.isEmpty then [] else [dataStatements c.documents.names]).flatten =
      dataStatements c.documents.names := by
    cases c.documents.names <;> simp [dataStatements]
  rw [← text_barrelModule, linesOf_text, barrelModule, List.flatten_append, List.flatten_append, hblock]
  simp only [dataStatements, List.flatMap_append, List.flatten_cons, List.flatten_nil, List.cons_append, List.nil_append,
    List.flatMap_cons, List.flatMap_nil, linesOf_notice, linesOf_isTypeExport ho, hexports, himports, hspread,
    List.append_assoc]

/-! ## The declaration module -/

/-- What comes before the constants. -/
def headLines (documents objects : List String) (o : PackageOptions) : List Line :=
  [noticeLine, .importType "Markdown" (o.runtimeModule ++ "/core"),
    .exportFrom "isType" (o.runtimeModule ++ "/client"), .type "IsoDateTimeString" ["string"], .exportType "Markdown",
    .interface "ContentgenGenTypes", .entry "documentTypes" "DocumentTypes",
    .entry "documentTypeMap" "DocumentTypeMap", .entry "documentTypeNames" "DocumentTypeNames",
    .entry "allTypeNames" "AllTypeNames", closeLine, .openGlobal,
    .inner ["", "", "interface", "ContentgenGen", "extends", "ContentgenGenTypes", "\x7b\x7d"], closeLine] ++
  mapLines documents ++
  [.type "AllTypes" ["DocumentTypes", "|", "ObjectTypes"],
    .type "AllTypeNames" ["DocumentTypeNames", "|", "ObjectTypeNames"],
    .type "DocumentTypes" (unionWords documents), .type "DocumentTypeNames" ["DocumentTypes['_typeName']"],
    .type "ObjectTypes" (unionWords objects), .type "ObjectTypeNames" ["ObjectTypes['_typeName']"]]

theorem oneLine_unionOf {names : List String} (h : ∀ n ∈ names, Word n) : OneLine (Package.unionOf names) := by
  unfold Package.unionOf
  split
  · decide
  · exact oneLine_intercalate (by decide) fun n hn => (h n hn).2

theorem linesOf_union {name : String} {names : List String} (hn : Word name) (h : ∀ n ∈ names, Word n) :
    linesOf (Statement.type "" name (Package.unionOf names)).text = [.type name (unionWords names)] := by
  rw [linesOf_type hn (oneLine_unionOf h), wordsOf_unionOf h]

theorem linesOf_groupStatements {group : String} {names : List String} (hg : Word group) (h : ∀ n ∈ names, Word n) :
    (groupStatements group names).flatMap (fun s => linesOf s.text) =
      [.type (group ++ "Types") (unionWords names), .type (group ++ "TypeNames") [group ++ "Types['_typeName']"]] := by
  have hnames : Word (group ++ "Types['_typeName']") := word_append.mpr ⟨hg, by decide⟩
  have hindexed : group ++ "Types['" ++ typeNameField ++ "']" = group ++ "Types['_typeName']" := by
    simp only [String.append_assoc]
    rfl
  simp only [groupStatements, List.flatMap_cons, List.flatMap_nil, List.append_nil, hindexed]
  rw [linesOf_union (word_append.mpr ⟨hg, by decide⟩) h, linesOf_type (word_append.mpr ⟨hg, by decide⟩) hnames.2,
    wordsOf_single hnames.1, String.ofList_toList]
  rfl

theorem linesOf_headBlocks {documents objects : List String} {o : PackageOptions} (hd : ∀ n ∈ documents, Word n)
    (ho : ∀ n ∈ objects, Word n) (hr : OneLine o.runtimeModule) :
    (headBlocks documents objects o).flatten.flatMap (fun s => linesOf s.text) = headLines documents objects o := by
  have hmarkdown : linesOf (Statement.importType markdownType (o.runtimeModule ++ "/core")).text =
      [.importType "Markdown" (o.runtimeModule ++ "/core")] :=
    linesOf_importType (by decide) (oneLine_append.mpr ⟨hr, by decide⟩)
  have hdate : linesOf (Statement.type "" dateType "string").text = [.type "IsoDateTimeString" ["string"]] := by decide
  have hexport : linesOf (Statement.exportType markdownType).text = [.exportType "Markdown"] := by decide
  have hinterface : linesOf (Statement.interface "ContentgenGenTypes" genTypesMembers).text =
      [.interface "ContentgenGenTypes", .entry "documentTypes" "DocumentTypes",
        .entry "documentTypeMap" "DocumentTypeMap", .entry "documentTypeNames" "DocumentTypeNames",
        .entry "allTypeNames" "AllTypeNames", closeLine] := by
    have hmembers : genTypesMembers = entriesText [("documentTypes", "DocumentTypes"),
        ("documentTypeMap", "DocumentTypeMap"), ("documentTypeNames", "DocumentTypeNames"),
        ("allTypeNames", "AllTypeNames")] := by
      simp only [genTypesMembers, entriesText, List.map_cons, List.map_nil, String.join, List.foldl_cons,
        List.foldl_nil, String.reduceAppend]
    rw [hmembers, linesOf_interface (by decide) (by decide)]
    rfl
  have hglobal : linesOf (Statement.globalInterface "ContentgenGen" "ContentgenGenTypes").text = [.openGlobal,
      .inner ["", "", "interface", "ContentgenGen", "extends", "ContentgenGenTypes", "\x7b\x7d"], closeLine] := by
    decide +kernel
  have hall : linesOf (Statement.type "" "AllTypes" "DocumentTypes | ObjectTypes").text =
      [.type "AllTypes" ["DocumentTypes", "|", "ObjectTypes"]] :=
    @linesOf_union "AllTypes" ["DocumentTypes", "ObjectTypes"] (by decide) (by decide)
  have hallNames : linesOf (Statement.type "" "AllTypeNames" "DocumentTypeNames | ObjectTypeNames").text =
      [.type "AllTypeNames" ["DocumentTypeNames", "|", "ObjectTypeNames"]] :=
    @linesOf_union "AllTypeNames" ["DocumentTypeNames", "ObjectTypeNames"] (by decide) (by decide)
  simp only [headBlocks, List.flatten_cons, List.flatten_nil, List.append_nil, List.flatMap_append, List.flatMap_cons,
    List.flatMap_nil, linesOf_notice, hmarkdown, linesOf_isTypeExport hr, hdate, hexport, hinterface, hglobal,
    linesOf_typeMap hd, hall, hallNames, linesOf_groupStatements (by decide : Word "Document") hd,
    linesOf_groupStatements (by decide : Word "Object") ho]
  simp [headLines]

def constantLines (names : List String) : List Line :=
  (names.map fun n => Line.ambientConstant (dataConstant n) (n ++ "[]")) ++
    [Line.ambientConstant "allDocuments" "DocumentTypes[]"]

theorem linesOf_constantStatements {names : List String} (h : ∀ n ∈ names, Word n) :
    (constantStatements names).flatMap (fun s => linesOf s.text) = constantLines names := by
  have hconstants := flatMap_lines fun n hmem =>
    linesOf_ambientConstant (word_dataConstant (h n hmem)) (word_append.mpr ⟨h n hmem, by decide⟩ : Word (n ++ "[]"))
  rw [constantStatements, List.flatMap_append, hconstants]
  rfl

def definitionLines (ds : List Definition) : List Line := ds.flatMap fun d => linesOf (definitionStatement d).text

/-- The definitions have names without blanks, and so have those that they refer to. -/
def WellNamed (ds : List Definition) : Prop := ∀ d ∈ ds, Word d.name ∧ ∀ l ∈ links d.fields, OneLine l.target

theorem mem_definitionLines {ds : List Definition} (h : WellNamed ds) : ∀ l ∈ definitionLines ds,
    l.isInner = true ∨ ∃ name, l = .type name ["\x7b"] := by
  intro l hl
  obtain ⟨d, hd, hl⟩ := List.mem_flatMap.mp hl
  obtain ⟨before, after, hinner, e⟩ := linesOf_definitionStatement (h d hd).1 (h d hd).2
  rw [e, List.mem_append, List.mem_cons] at hl
  rcases hl with hl | rfl | hl
  · exact Or.inl (hinner l (List.mem_append_left _ hl))
  · exact Or.inr ⟨_, rfl⟩
  · exact Or.inl (hinner l (List.mem_append_right _ hl))

theorem linesOf_declarations {c : Canonical.Schema} {o : PackageOptions} (hn : ∀ n ∈ c.documents.names, Word n)
    (hd : WellNamed (sortedDocuments c)) (ho : WellNamed (sortedObjects c)) (hr : OneLine o.runtimeModule) :
    linesOf (declarations c o) = headLines ((sortedDocuments c).map (·.name)) ((sortedObjects c).map (·.name)) o ++
      constantLines c.documents.names ++ .remark ["Document", "types"] :: (definitionLines (sortedDocuments c) ++
        .remark ["Object", "types"] :: definitionLines (sortedObjects c)) := by
  have hwords : ∀ {ds : List Definition}, WellNamed ds → ∀ n ∈ ds.map (·.name), Word n :=
    fun h => List.forall_mem_map.mpr fun d hd => (h d hd).1
  have hdefinitions : ∀ ds : List Definition,
      ((ds.map fun d => [definitionStatement d]).flatten).flatMap (fun s => linesOf s.text) = definitionLines ds := by
    intro ds
    rw [definitionLines, ← List.flatMap_def, ← List.map_eq_flatMap, List.flatMap_map]
  have hremark : linesOf (Statement.remark "Document types").text = [.remark ["Document", "types"]] := by decide
  have hremark' : linesOf (Statement.remark "Object types").text = [.remark ["Object", "types"]] := by decide
  rw [← text_declarationModule, linesOf_text, declarationModule]
  simp only [List.flatten_append, List.flatMap_append, linesOf_headBlocks (hwords hd) (hwords ho) hr, hdefinitions,
    List.flatten_cons, linesOf_constantStatements hn, List.flatMap_cons, hremark, hremark', List.append_assoc,
    List.cons_append, List.nil_append]

end Package

end TypedContent

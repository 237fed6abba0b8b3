import TypedContent.Package.Artifacts
import TypedContent.Proofs.TypeScript.RoundTrip

/-!
# The generated modules, statement by statement

The barrel module and the declaration module as blocks of statements. A statement has a text and
the names that it puts into scope, types apart from constants. The modules that are written are
the texts of these statements, whatever the schema and the options, so what is said of the
names of statements is said of them.
-/

namespace TypedContent

namespace Package

open TypeScript

inductive Statement where
  | remark (line : String)
  | importType (name source : String)
  | importConstant (name source : String)
  | exportFrom (name source : String)
  | exportAll (source : String)
  | exportType (name : String)
  /-- The declaration of a type, with the comment that stands over it. -/
  | type (comment name expr : String)
  | interface (name members : String)
  /-- The interface is one of the global scope, not of the module. -/
  | globalInterface (name base : String)
  | constant (name value : String)
  | ambientConstant (name expr : String)
  deriving DecidableEq

namespace Statement

def pieces : Statement → List String
  | .remark line => ["// ", line]
  | .importType name source => ["import type \x7b ", name, " \x7d from '", source, "'"]
  | .importConstant name source => ["import \x7b ", name, " \x7d from '", source, "'"]
  | .exportFrom name source => ["export \x7b ", name, " \x7d from '", source, "'"]
  | .exportAll source => ["export * from '", source, "'"]
  | .exportType name => ["export type \x7b ", name, " \x7d"]
  | .type comment name expr => [comment, "export type ", name, " = ", expr]
  | .interface name members => ["export interface ", name, " \x7b\n", members, "\x7d"]
  | .globalInterface name base => ["declare global \x7b\n  interface ", name, " extends ", base, " \x7b\x7d\n\x7d"]
  | .constant name value => ["export const ", name, " = ", value]
  | .ambientConstant name expr => ["export declare const ", name, ": ", expr]

def text (s : Statement) : String := String.join s.pieces

/-- The types that the statement declares in its module. -/
def types : Statement → List String
  | .importType name _ => [name]
  | .type _ name _ => [name]
  | .interface name _ => [name]
  | _ => []

/-- The constants that the statement declares or exports. What `export *` exports is left to
the module that it names. -/
def constants : Statement → List String
  | .importConstant name _ => [name]
  | .exportFrom name _ => [name]
  | .constant name _ => [name]
  | .ambientConstant name _ => [name]
  | _ => []

end Statement

/-- Blocks of statements. Between blocks there is an empty line. -/
abbrev Module : Type := List (List Statement)

namespace Module

def text (m : Module) : String := joinBlocks (m.map fun block => "\n".intercalate (block.map (·.text)))

def types (m : Module) : List String := m.flatten.flatMap (·.types)

def constants (m : Module) : List String := m.flatten.flatMap (·.constants)

/-- The statements that declare a type of the name. -/
def declaring (m : Module) (name : String) : List Statement := m.flatten.filter (name ∈ ·.types)

end Module

/-! ## The barrel module -/

def fromFile (fileName : String) : String := "./" ++ fileName

def isTypeExport (o : PackageOptions) : Statement := .exportFrom "isType" (o.runtimeModule ++ "/client")

def dataStatements (names : List String) : List Statement :=
  names.map (fun n => .exportAll (fromFile (dataFile n))) ++
    names.map fun n => .importConstant (dataConstant n) (fromFile (dataFile n))

def spread (names : List String) : String := "[" ++ ", ".intercalate (names.map fun n => "..." ++ dataConstant n) ++ "]"

def barrelModule (c : Canonical.Schema) (o : PackageOptions) : Module :=
  [[.remark "NOTE This file is auto-generated by contentgen"], [isTypeExport o]] ++
    (if c.documents.names.isEmpty then [] else [dataStatements c.documents.names]) ++
    [[.constant "allDocuments" (spread c.documents.names)]]

/-! ## The declaration module -/

def definitionStatement (d : Definition) : Statement :=
  .type (descriptionComment d) d.name ("\x7b\n" ++ String.join (bodyLines d) ++ "\x7d")

/-- The type of all types of a group, and the type of their names. -/
def groupStatements (group : String) (names : List String) : List Statement :=
  [.type "" (group ++ "Types") (unionOf names),
    .type "" (group ++ "TypeNames") (group ++ "Types['" ++ typeNameField ++ "']")]

def constantStatements (names : List String) : List Statement :=
  names.map (fun n => .ambientConstant (dataConstant n) (n ++ "[]")) ++
    [.ambientConstant "allDocuments" "DocumentTypes[]"]

def sortedDocuments (c : Canonical.Schema) : List Definition := c.documents.sorted.map .document

def sortedObjects (c : Canonical.Schema) : List Definition := c.objects.sorted.map .object

def genTypesMembers : String :=
  "  documentTypes: DocumentTypes\n  documentTypeMap: DocumentTypeMap\n  documentTypeNames: DocumentTypeNames\n  allTypeNames: AllTypeNames\n"

/-- What comes before the constants. -/
def headBlocks (documents objects : List String) (o : PackageOptions) : Module := [
  [.remark "NOTE This file is auto-generated by contentgen"],
  [.importType markdownType (o.runtimeModule ++ "/core"), isTypeExport o],
  [.type "" dateType "string", .exportType markdownType],
  [.interface "ContentgenGenTypes" genTypesMembers],
  [.globalInterface "ContentgenGen" "ContentgenGenTypes"],
  [.type "" "DocumentTypeMap" (typeMap documents)],
  [.type "" "AllTypes" "DocumentTypes | ObjectTypes", .type "" "AllTypeNames" "DocumentTypeNames | ObjectTypeNames"],
  groupStatements "Document" documents,
  groupStatements "Object" objects]

def declarationModule (c : Canonical.Schema) (o : PackageOptions) : Module :=
  headBlocks ((sortedDocuments c).map (·.name)) ((sortedObjects c).map (·.name)) o ++
    [constantStatements c.documents.names, [.remark "Document types"]] ++
    (sortedDocuments c).map (fun d => [definitionStatement d]) ++
    [[.remark "Object types"]] ++
    (sortedObjects c).map fun d => [definitionStatement d]

/-! ## Texts -/

theorem text_exportAll (n : String) : (Statement.exportAll (fromFile (dataFile n))).text = exportLine n := by
  unfold exportLine fromFile
  refine String.toList_inj.mp ?_
  simp [Statement.text, Statement.pieces]

theorem text_importConstant (n : String) :
    (Statement.importConstant (dataConstant n) (fromFile (dataFile n))).text = importLine n := by
  unfold importLine fromFile
  refine String.toList_inj.mp ?_
  simp [Statement.text, Statement.pieces]

theorem text_isTypeExport (o : PackageOptions) : (isTypeExport o).text = helperLine o := by
  unfold helperLine
  refine String.toList_inj.mp ?_
  simp [isTypeExport, Statement.text, Statement.pieces]

theorem text_dataStatements {names : List String} (h : names ≠ []) :
    "\n".intercalate ((dataStatements names).map (·.text)) =
      "\n".intercalate (names.map exportLine) ++ "\n" ++ "\n".intercalate (names.map importLine) := by
  rw [dataStatements, List.map_append, List.map_map, List.map_map,
    String.intercalate_append_of_ne_nil (by simpa using h) (by simpa using h)]
  simp only [Function.comp_def, text_exportAll, text_importConstant]

theorem text_allDocuments (names : List String) : (Statement.constant "allDocuments" (spread names)).text =
    "export const allDocuments = [" ++ ", ".intercalate (names.map fun n => "..." ++ dataConstant n) ++ "]" := by
  unfold spread
  refine String.toList_inj.mp ?_
  simp [Statement.text, Statement.pieces]

theorem text_notice : (Statement.remark "NOTE This file is auto-generated by contentgen").text = notice := by
  unfold notice
  decide

theorem text_barrelModule (c : Canonical.Schema) (o : PackageOptions) : (barrelModule c o).text = barrel c o := by
  unfold barrelModule barrel Module.text
  simp only [List.map_append, List.map_cons, List.map_nil, String.intercalate_singleton]
  rw [text_notice, text_isTypeExport, text_allDocuments]
  by_cases h : c.documents.names = []
  · simp only [h, List.isEmpty_nil, if_true, List.map_nil]
  · have hne : c.documents.names.isEmpty = false := by simpa using h
    simp only [hne, Bool.false_eq_true, if_false, List.map_cons, List.map_nil, text_dataStatements h]

theorem text_constantStatements (names : List String) :
    "\n".intercalate ((constantStatements names).map (·.text)) =
      "\n".intercalate (names.map constantLine ++ ["export declare const allDocuments: DocumentTypes[]"]) := by
  have hline : ∀ n, (Statement.ambientConstant (dataConstant n) (n ++ "[]")).text = constantLine n := by
    intro n
    unfold constantLine
    refine String.toList_inj.mp ?_
    simp [Statement.text, Statement.pieces]
  have hall : (Statement.ambientConstant "allDocuments" "DocumentTypes[]").text =
      "export declare const allDocuments: DocumentTypes[]" := by decide
  simp only [constantStatements, List.map_append, List.map_map, Function.comp_def, hline, List.map_cons, List.map_nil,
    hall]

theorem text_groupStatements (group : String) (names : List String) :
    "\n".intercalate ((groupStatements group names).map (·.text)) = groupTypes group names := by
  unfold groupTypes
  simp only [groupStatements, List.map_cons, List.map_nil, String.intercalate_cons_cons, String.intercalate_singleton]
  refine String.toList_inj.mp ?_
  simp [Statement.text, Statement.pieces]

theorem text_importMarkdown (o : PackageOptions) :
    (Statement.importType markdownType (o.runtimeModule ++ "/core")).text ++ "\n" ++ helperLine o =
      "import type \x7b " ++ markdownType ++ " \x7d from '" ++ o.runtimeModule ++ "/core'\n" ++ helperLine o := by
  refine String.toList_inj.mp ?_
  simp [Statement.text, Statement.pieces]

theorem text_typeMap (names : List String) : (Statement.type "" "DocumentTypeMap" (typeMap names)).text =
    "export type DocumentTypeMap = " ++ typeMap names := by
  refine String.toList_inj.mp ?_
  simp [Statement.text, Statement.pieces]

theorem text_definitionStatement (d : Definition) : (definitionStatement d).text = renderDefinition d := by
  refine String.toList_inj.mp ?_
  rw [toList_renderDefinition]
  simp [definitionStatement, Statement.text, Statement.pieces, body]

theorem text_renderedTypes (ds : List Definition) :
    (ds.map fun d => [definitionStatement d]).map (fun block => "\n".intercalate (block.map (·.text))) =
      ds.map renderDefinition := by
  rw [List.map_map]
  refine List.map_congr_left fun d _ => ?_
  rw [Function.comp_apply, List.map_cons, List.map_nil, String.intercalate_singleton, text_definitionStatement]

theorem text_declarationModule (c : Canonical.Schema) (o : PackageOptions) :
    (declarationModule c o).text = declarations c o := by
  have hdate : (Statement.type "" dateType "string").text ++ "\n" ++ (Statement.exportType markdownType).text =
      "export type " ++ dateType ++ " = string\nexport type \x7b " ++ markdownType ++ " \x7d" := by decide
  have hinterface : (Statement.interface "ContentgenGenTypes" genTypesMembers).text =
      "export interface ContentgenGenTypes \x7b\n  documentTypes: DocumentTypes\n  documentTypeMap: DocumentTypeMap\n  documentTypeNames: DocumentTypeNames\n  allTypeNames: AllTypeNames\n\x7d" := by
    unfold genTypesMembers
    simp only [Statement.text, Statement.pieces, String.join, List.foldl_cons, List.foldl_nil, String.reduceAppend]
  have hglobal : (Statement.globalInterface "ContentgenGen" "ContentgenGenTypes").text =
      "declare global \x7b\n  interface ContentgenGen extends ContentgenGenTypes \x7b\x7d\n\x7d" := by decide
  have hall : (Statement.type "" "AllTypes" "DocumentTypes | ObjectTypes").text ++ "\n" ++
      (Statement.type "" "AllTypeNames" "DocumentTypeNames | ObjectTypeNames").text =
      "export type AllTypes = DocumentTypes | ObjectTypes\nexport type AllTypeNames = DocumentTypeNames | ObjectTypeNames" := by
    decide
  have hremark : (Statement.remark "Document types").text = "// Document types" := by decide
  have hremark' : (Statement.remark "Object types").text = "// Object types" := by decide
  unfold declarationModule declarations Module.text headBlocks
  rw [List.map_append, List.map_append, List.map_append, List.map_append, text_renderedTypes, text_renderedTypes]
  simp only [List.map_cons, List.map_nil, String.intercalate_cons_cons, String.intercalate_singleton,
    text_isTypeExport, text_notice, text_importMarkdown, hdate, hinterface, hglobal, text_typeMap, hall,
    text_groupStatements, text_constantStatements, hremark, hremark']
  simp only [render, sortedDocuments, sortedObjects, declare, List.map_map, Function.comp_def, List.cons_append,
    List.nil_append, Definition.name]

end Package

end TypedContent

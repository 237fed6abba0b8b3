import TypedContent.Json.Print
import TypedContent.Package.Cache
import TypedContent.TypeScript.Render

/-!
# The generated package

A package has a manifest, a barrel module that joins all documents, a declaration module
with the types, and one data module for each document type:

    package.json   index.js   index.d.ts   all<Type>.js …
-/

namespace TypedContent

/-- The identity of a package, and the module its helpers come from. -/
structure PackageOptions where
  name : String := "dot-contentgen"
  version : String := "0.0.0"
  runtimeModule : String := "contentgen"
  deriving DecidableEq

structure Artifact where
  fileName : String
  content : String
  deriving DecidableEq

namespace Package

open TypeScript (Declaration render dateType markdownType typeNameField)

def packageFile : String := "package.json"

def barrelFile : String := "index.js"

def declarationFile : String := "index.d.ts"

def notice : String := "// NOTE This file is auto-generated by contentgen"

def dataConstant (typeName : String) : String := "all" ++ typeName

def dataFile (typeName : String) : String := dataConstant typeName ++ ".js"

/-- Blocks with an empty line between them, and a line feed at the end. -/
def joinBlocks (blocks : List String) : String := "\n\n".intercalate blocks ++ "\n"

def dataModule (t : TypeDocuments) : String :=
  "export const " ++ dataConstant t.typeName ++ " = "
    ++ (Json.arr (t.documents.map (·.toJson))).pretty ++ "\n"

def manifest (o : PackageOptions) : String :=
  (Json.obj [("name", .str o.name), ("version", .str o.version),
    ("module", .str "./index.js"), ("types", .str "./index.d.ts")]).pretty ++ "\n"

def exportLine (typeName : String) : String := "export * from './" ++ dataFile typeName ++ "'"

def importLine (typeName : String) : String :=
  "import \x7b " ++ dataConstant typeName ++ " \x7d from './" ++ dataFile typeName ++ "'"

def helperLine (o : PackageOptions) : String := "export \x7b isType \x7d from '" ++ o.runtimeModule ++ "/client'"

/-- The barrel module; the document types come in declaration order. -/
def barrel (s : Canonical.Schema) (o : PackageOptions) : String :=
  let names := s.documents.names
  joinBlocks <|
    [notice, helperLine o]
      ++ (if names.isEmpty then []
          else ["\n".intercalate (names.map exportLine) ++ "\n" ++ "\n".intercalate (names.map importLine)])
      ++ ["export const allDocuments = [" ++ ", ".intercalate (names.map fun n => "..." ++ dataConstant n) ++ "]"]

def unionOf (names : List String) : String :=
  if names.isEmpty then "never" else " | ".intercalate names

/-- The type that maps the name of each document type to the type. -/
def typeMap (names : List String) : String :=
  if names.isEmpty then "\x7b\x7d"
  else "\x7b\n" ++ String.join (names.map fun n => "  " ++ n ++ ": " ++ n ++ "\n") ++ "\x7d"

def constantLine (typeName : String) : String :=
  "export declare const " ++ dataConstant typeName ++ ": " ++ typeName ++ "[]"

/-- The type of all types of a group, and the type of their names. -/
def groupTypes (group : String) (names : List String) : String :=
  "export type " ++ group ++ "Types = " ++ unionOf names ++ "\nexport type " ++ group ++ "TypeNames = "
    ++ group ++ "Types['" ++ typeNameField ++ "']"

/-- The declaration module. The types come by name, the constants in declaration order. -/
def declarations (s : Canonical.Schema) (o : PackageOptions) : String :=
  let types := render s
  let documents := types.documents.map (·.name)
  let objects := types.objects.map (·.name)
  joinBlocks <|
    [notice,
      "import type \x7b " ++ markdownType ++ " \x7d from '" ++ o.runtimeModule ++ "/core'\n" ++ helperLine o,
      "export type " ++ dateType ++ " = string\nexport type \x7b " ++ markdownType ++ " \x7d",
      "export interface ContentgenGenTypes \x7b\n  documentTypes: DocumentTypes\n  documentTypeMap: DocumentTypeMap\n  documentTypeNames: DocumentTypeNames\n  allTypeNames: AllTypeNames\n\x7d",
      "declare global \x7b\n  interface ContentgenGen extends ContentgenGenTypes \x7b\x7d\n\x7d",
      "export type DocumentTypeMap = " ++ typeMap documents,
      "export type AllTypes = DocumentTypes | ObjectTypes\nexport type AllTypeNames = DocumentTypeNames | ObjectTypeNames",
      groupTypes "Document" documents,
      groupTypes "Object" objects,
      "\n".intercalate
        (s.documents.names.map constantLine ++ ["export declare const allDocuments: DocumentTypes[]"]),
      "// Document types"]
      ++ types.documents.map (·.text)
      ++ ["// Object types"]
      ++ types.objects.map (·.text)

/-- All files of the package. Documents that match no type are left out. -/
def build (s : Canonical.Schema) (c : Cache) (o : PackageOptions) : List Artifact :=
  [⟨packageFile, manifest o⟩, ⟨barrelFile, barrel s o⟩, ⟨declarationFile, declarations s o⟩]
    ++ (c.partition s).byType.map fun t => ⟨dataFile t.typeName, dataModule t⟩

end Package

end TypedContent

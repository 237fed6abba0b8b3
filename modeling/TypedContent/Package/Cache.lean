import TypedContent.Canonical.Definition
import TypedContent.Reading.Shape
import TypedContent.TypeScript.Name

/-!
# The content cache

The cache is the list of all documents, each tagged with the name of its document type.
`Cache.partition` deals them out to the types of a schema.
-/

namespace TypedContent

structure Document where
  members : List (String × Json)

namespace Document

def ofJson? : Json → Option Document
  | .obj members => some ⟨members⟩
  | _ => none

def toJson (d : Document) : Json := .obj d.members

/-- The name of the document's type, if it is tagged with a string. -/
def typeName? (d : Document) : Option String :=
  (Json.lookup TypeScript.typeNameField d.members).bind Json.string?

end Document

structure Cache where
  documents : List Document := []

structure TypeDocuments where
  typeName : String
  documents : List Document

structure Partition where
  byType : List TypeDocuments
  unmatched : List Document

namespace Partition

/-- One entry for each name, and nothing in it. -/
def start (names : List String) : Partition := ⟨names.map (⟨·, []⟩), []⟩

/-- Puts one document behind those that its entry has, or behind those that match no type. -/
def deal (position? : String → Option Nat) (p : Partition) (d : Document) : Partition :=
  match d.typeName?.bind position? with
  | some i => { p with byType := p.byType.modify i fun t => { t with documents := t.documents ++ [d] } }
  | none => { p with unmatched := p.unmatched ++ [d] }

end Partition

namespace Cache

def toJson (c : Cache) : Json := .obj [("documents", .arr (c.documents.map (·.toJson)))]

/-- Deals out the documents one after the other. -/
def partition (c : Cache) (s : Canonical.Schema) : Partition :=
  c.documents.foldl (.deal s.documents.position?) (.start s.documents.names)

/-! ## Reading -/

def readDocument (levels : Nat) : Reader Document
  | .obj members stop => do
    match ← readJson levels (.obj members stop) with
    | .obj members => return ⟨members⟩
    | _ => malformed
  | t => .error (t.mismatch .map)

def shape (levels : Nat) : Shape Cache where
  name := "Cache"
  slots := [⟨"documents", .required, fun c t => ({ c with documents := · }) <$>
    readSequence levels (readDocument (levels - 1)) t⟩]
  empty := {}

def read (levels : Nat) : Reader Cache := readRecord levels (shape (levels - 1))

def ofText (text : String) : Except ReadError Cache := readText (read nestingLimit) text

end Cache

end TypedContent

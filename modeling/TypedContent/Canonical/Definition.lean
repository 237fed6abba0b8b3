import TypedContent.Schema.Definition

/-!
# The canonical schema

Every label is settled, every reference names a definition that is there, and only objects
that some document uses are left. References stay names, so a definition is finite even
when the types are cyclic.
-/

namespace TypedContent

namespace Canonical

abbrev Field : Type := TypedContent.Field String

abbrev Item : Type := TypedContent.Item String

structure Document where
  name : String
  label : String
  description : Option String := none
  labelField : Option String := none
  isSingleton : Bool
  fields : List Field
  computed : List ComputedField

structure Object where
  name : String
  label : String
  description : Option String := none
  labelField : Option String := none
  fields : List Field

instance : Named Document := ⟨Document.name⟩

instance : Named Object := ⟨Object.name⟩

structure Schema where
  documents : Table Document
  objects : Table Object

end Canonical

end TypedContent

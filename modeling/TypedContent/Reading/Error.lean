import TypedContent.Double.Shortest
import TypedContent.Json.Tree
import TypedContent.Schema.Error

/-!
# Why a text cannot be read
-/

namespace TypedContent

inductive Found where
  | null
  | boolean (value : Bool)
  | number (value : Number)
  | string (value : String)
  | sequence
  | map
  deriving DecidableEq

inductive Expected where
  | string
  | boolean
  | sequence
  | map
  | definitions
  | unit
  | record (name : String)
  deriving DecidableEq

inductive ShapeError where
  | wrongType (found : Found) (expected : Expected)
  | missingKey (key : String)
  | duplicateKey (key : String)
  | unknownVariant (variant : String) (known : List String)
  | wrongLength (length : Nat) (record : String) (size : Nat)
  /-- The item descriptors of a list field, however they are wrong. -/
  | noDescriptors
  deriving DecidableEq

inductive ReadError where
  | fault (fault : Fault)
  | shape (error : ShapeError)
  | schema (error : SchemaError)
  deriving DecidableEq

open Text in
def Found.text : Found → String
  | .null => "null"
  | .boolean b => "boolean " ++ ticked (if b then "true" else "false")
  | .number (.int n) => "integer " ++ ticked (toString n)
  | .number (.double x) => "floating point " ++ ticked (String.ofList x.text)
  | .string s => "string " ++ quoted s
  | .sequence => "sequence"
  | .map => "map"

def Expected.text : Expected → String
  | .string => "a string"
  | .boolean => "a boolean"
  | .sequence => "a sequence"
  | .map => "a map"
  | .definitions => "a map of named definitions"
  | .unit => "unit"
  | .record name => "struct " ++ name

open Text in
def ShapeError.message : ShapeError → String
  | .wrongType found expected => "invalid type: " ++ found.text ++ ", expected " ++ expected.text
  | .missingKey key => "missing field " ++ ticked key
  | .duplicateKey key => "duplicate field " ++ ticked key
  | .unknownVariant variant known =>
    "unknown variant " ++ ticked variant ++ ", expected one of " ++ ", ".intercalate (known.map ticked)
  | .wrongLength length record size =>
    "invalid length " ++ toString length ++ ", expected struct " ++ record ++ " with " ++
      toString size ++ (if size = 1 then " element" else " elements")
  | .noDescriptors => "data did not match any variant of untagged enum ListOf"

def ReadError.message : ReadError → String
  | .fault .malformed => "malformed JSON"
  | .fault .truncated => "unexpected end of JSON"
  | .shape e => e.message
  | .schema e => e.message

end TypedContent

import TypedContent.Json.Value
import TypedContent.Schema.Error

/-!
# Tables of definitions

A table keeps definitions in the order in which they were added, each name once. A second
definition of a name is refused; nothing is merged or overwritten. A definition is added in place,
so what a call that fails leaves behind is the table it has got to by then.
-/

namespace TypedContent

/-- Calls that change a `σ` in place and may fail on the way. -/
abbrev Building (σ : Type) : Type → Type := ExceptT SchemaError (StateM σ)

/-- What has been built, for a caller that drops it when the call fails. -/
def Building.result {σ : Type} (call : Building σ Unit) (s : σ) : Except SchemaError σ :=
  match call.run.run s with
  | (.ok (), s') => .ok s'
  | (.error e, _) => .error e

class Named (α : Type) where
  name : α → String

structure Table (α : Type) where
  kind : TableKind
  entries : List α

namespace Table

variable {α : Type} [Named α]

def empty (kind : TableKind) : Table α := ⟨kind, []⟩

def names (t : Table α) : List String := t.entries.map Named.name

def get? (t : Table α) (name : String) : Option α := t.entries.find? (Named.name · = name)

def position? (t : Table α) (name : String) : Option Nat := t.entries.findIdx? (Named.name · = name)

def contains (t : Table α) (name : String) : Bool := (t.get? name).isSome

def size (t : Table α) : Nat := t.entries.length

def isEmpty (t : Table α) : Bool := t.entries.isEmpty

def register (entry : α) : Building (Table α) Unit := do
  let t ← get
  if t.contains (Named.name entry) then
    throw (.duplicateName t.kind (Named.name entry))
  modify fun t => { t with entries := t.entries ++ [entry] }

def insert (t : Table α) (entry : α) : Except SchemaError (Table α) := (register entry).result t

def sorted (t : Table α) : List α :=
  t.entries.mergeSort fun a b => decide (Named.name a ≤ Named.name b)

def toJson (entry : α → Json) (t : Table α) : Json :=
  .obj (t.entries.map fun a => (Named.name a, entry a))

theorem contains_eq_true {t : Table α} {name : String} : t.contains name = true ↔ name ∈ t.names := by
  simp [contains, get?, names]

end Table

end TypedContent

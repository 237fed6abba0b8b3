import Mathlib
import TypedContent.Table

/-!
# Tables with an index

Beside its definitions such a table keeps the position of each name, and a definition is looked up
by its position. What is listed, sorted or printed is taken from the definitions alone.

Schemas are built from tables without the index. It answers nothing that the definitions do not
answer: after any insertions both tables hold the same, refuse the same and find the same
(`Answers.plain` and `Answers.scanned`), and a schema takes its tables from empty to what they are by
insertions only. An index in every schema would be carried through each proof about it and never
asked.
-/

namespace TypedContent

structure IndexedTable (α : Type) where
  kind : TableKind
  entries : Array α
  index : Std.HashMap String Nat

namespace IndexedTable

variable {α : Type} [Named α]

def empty (kind : TableKind) : IndexedTable α := ⟨kind, #[], ∅⟩

/-- The table without its index. -/
def table (t : IndexedTable α) : Table α := ⟨t.kind, t.entries.toList⟩

def names (t : IndexedTable α) : List String := t.table.names

def get? (t : IndexedTable α) (name : String) : Option α := do t.entries[← t.index[name]?]?

def contains (t : IndexedTable α) (name : String) : Bool := t.index.contains name

def size (t : IndexedTable α) : Nat := t.entries.size

def isEmpty (t : IndexedTable α) : Bool := t.entries.isEmpty

def sorted (t : IndexedTable α) : List α := t.table.sorted

def toJson (entry : α → Json) (t : IndexedTable α) : Json := t.table.toJson entry

def insert (entry : α) : Building (IndexedTable α) Unit := do
  let name := Named.name entry
  if (← get).contains name then
    throw (.duplicateName (← get).kind name)
  modify fun t => { t with index := t.index.insert name t.entries.size }
  modify fun t => { t with entries := t.entries.push entry }

/-- One insertion: its outcome, and the table after it. -/
def perform (t : IndexedTable α) (entry : α) : Except SchemaError Unit × IndexedTable α := (insert entry).run.run t

/-- Insertions one after the other, whether they succeed or not. -/
def run (t : IndexedTable α) (calls : List α) : IndexedTable α := calls.foldl (fun t a => (t.perform a).2) t

/-- The definitions whose insertions succeed. -/
def accepted (t : IndexedTable α) : List α → List α
  | [] => []
  | a :: rest =>
    match t.perform a with
    | (.ok (), t') => a :: t'.accepted rest
    | (.error _, t') => t'.accepted rest

end IndexedTable

end TypedContent

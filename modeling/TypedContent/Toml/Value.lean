/-!
# TOML values

A table remembers how it came about, because that decides whether later lines may still
add to it (`Toml.insertPair`, `Toml.openTable`, `Toml.openTables`).
-/

namespace TypedContent

/-- Written out in braces, opened by a header of its own, or on the way of a longer header or
of a dotted key. -/
inductive TableOrigin where
  | inline
  | header
  | implicit
  | dotted
  deriving DecidableEq

inductive Toml where
  | string (value : String)
  | integer (value : Int)
  | float
  | boolean (value : Bool)
  | moment
  | array (items : List Toml)
  | table (origin : TableOrigin) (members : List (String × Toml))
  /-- Tables that headers in double brackets have opened one after the other. -/
  | tables (items : List (List (String × Toml)))

namespace Toml

abbrev Members : Type := List (String × Toml)

def lookup (key : String) (members : Members) : Option Toml := (members.find? (·.1 = key)).map (·.2)

def replace (key : String) (value : Toml) (members : Members) : Members :=
  members.map fun m => if m.1 = key then (key, value) else m

def changeLast {α : Type} (f : α → Option α) : List α → Option (List α)
  | [] => none
  | [x] => (f x).map ([·])
  | x :: rest => (changeLast f rest).map (x :: ·)

/-- Goes down the keys of a path and changes the members found at its end. Tables that are
not there yet are made. A complete table cannot be entered, and a dotted key enters no
table that a header has opened. -/
def change (origin : TableOrigin) (f : TableOrigin → Members → Option Members) :
    List String → TableOrigin → Members → Option Members
  | [], here, members => f here members
  | key :: path, _, members =>
    match lookup key members with
    | none => do return members ++ [(key, .table origin (← change origin f path origin []))]
    | some (.table o inner) =>
      if o = .inline ∨ (origin = .dotted ∧ o = .header) then none
      else do return replace key (.table o (← change origin f path o inner)) members
    | some (.tables items) => do
      return replace key (.tables (← changeLast (change origin f path .header) items)) members
    | some _ => none

/-- Adds a member under a dotted key. The path before the last key leads through tables
that only dotted keys have made. -/
def insertPair (path : List String) (key : String) (value : Toml) (here : TableOrigin) (members : Members) :
    Option Members :=
  change .dotted (fun o inner =>
    if path ≠ [] ∧ o ≠ .dotted ∨ (lookup key inner).isSome then none else some (inner ++ [(key, value)]))
    path here members

/-- Opens a table by its header. It must be new, or a table on the way of earlier headers. -/
def openTable (path : List String) (key : String) (root : Members) : Option Members :=
  change .implicit (fun _ members =>
    match lookup key members with
    | none => some (members ++ [(key, .table .header [])])
    | some (.table .implicit inner) => some (replace key (.table .header inner) members)
    | some _ => none)
    path .header root

def openTables (path : List String) (key : String) (root : Members) : Option Members :=
  change .implicit (fun _ members =>
    match lookup key members with
    | none => some (members ++ [(key, .tables [[]])])
    | some (.tables items) => some (replace key (.tables (items ++ [[]])) members)
    | some _ => none)
    path .header root

end Toml

end TypedContent

import TypedContent.Double.Basic

/-!
# JSON values

An object keeps its members in order, and every key once: writing a key again keeps
its first position and takes the last value (`Json.put`).
-/

namespace TypedContent

/-- A number of a JSON value. Integers from `-2^63` to `2^64 - 1` are kept exact;
everything else is a double. -/
inductive Number where
  | int (value : Int)
  | double (value : Double)
  deriving DecidableEq

inductive Json where
  | null
  | bool (value : Bool)
  | num (value : Number)
  | str (value : String)
  | arr (items : List Json)
  | obj (members : List (String × Json))

namespace Json

instance : Inhabited Json := ⟨.null⟩

def put (key : String) (value : Json) : List (String × Json) → List (String × Json)
  | [] => [(key, value)]
  | (k, v) :: rest => if k = key then (k, value) :: rest else (k, v) :: put key value rest

def lookup (key : String) : List (String × Json) → Option Json
  | [] => none
  | (k, v) :: rest => if k = key then some v else lookup key rest

def string? : Json → Option String
  | .str s => some s
  | _ => none

def ofNat (n : Nat) : Json := .num (.int n)

def optional (key : String) (value : Option Json) : List (String × Json) :=
  (value.map (key, ·)).toList

def strings (texts : List String) : Json := .arr (texts.map .str)

theorem lookup_put (key k : String) (value : Json) (members : List (String × Json)) :
    lookup k (put key value members) = if k = key then some value else lookup k members := by
  induction members with
  | nil => simp [put, lookup, eq_comm]
  | cons m rest ih =>
    obtain ⟨l, v⟩ := m
    by_cases hl : l = key
    · by_cases h : k = key <;> simp_all [put, lookup, eq_comm]
    · by_cases h : l = k
      · have : k ≠ key := fun e => hl (h.trans e)
        simp_all [put, lookup]
      · simp [put, lookup, hl, h, ih]

end Json

end TypedContent

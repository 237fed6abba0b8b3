/-!
# Doubles by their bits

A double is its 64 bits, and its arithmetic is exact arithmetic on fractions
followed by one rounding (`ofRatio`). Nothing here needs the machine's floating
point, so every result can be computed inside a proof.
-/

namespace TypedContent

structure Double where
  bits : UInt64
  deriving DecidableEq

namespace Double

def infinityBits : Nat := 2047 * Nat.pow 2 52

def zero : Double := ⟨0⟩

def isNegative (x : Double) : Bool := Nat.pow 2 63 ≤ x.bits.toNat

def magnitude (x : Double) : Nat := x.bits.toNat % Nat.pow 2 63

def isInfinite (x : Double) : Bool := x.magnitude == infinityBits

def negate (x : Double) : Double := ⟨x.bits ^^^ UInt64.ofNat (Nat.pow 2 63)⟩

/-- `(m, e)` such that the value without its sign is `m * 2 ^ (e - 1074)`. -/
def decompose (x : Double) : Nat × Nat :=
  let exponent := x.magnitude / Nat.pow 2 52
  let fraction := x.magnitude % Nat.pow 2 52
  if exponent = 0 then (fraction, 0) else (Nat.pow 2 52 + fraction, exponent - 1)

def ratio (x : Double) : Nat × Nat :=
  let (m, e) := x.decompose
  (m * Nat.pow 2 e, Nat.pow 2 1074)

/-- The quotient rounded to a natural number, a half going to the even neighbour. -/
def roundDiv (num den : Nat) : Nat :=
  let q := num / den
  let r := num % den
  if den < 2 * r ∨ (den = 2 * r ∧ q % 2 = 1) then q + 1 else q

/-- The double nearest to `num / den`, a tie going to the even neighbour. A quotient
that rounds beyond the largest double gives infinity. -/
def ofRatio (num den : Nat) : Double :=
  if num = 0 then zero else
  -- In units of the least double, 2 ^ (-1074).
  let num := num * Nat.pow 2 1074
  let above := Nat.log2 (num / den)
  let shift := above - 52
  let bits := shift * Nat.pow 2 52 + roundDiv num (den * Nat.pow 2 shift)
  ⟨UInt64.ofNat (min bits infinityBits)⟩

def mul (x y : Double) : Double :=
  ofRatio (x.ratio.1 * y.ratio.1) (x.ratio.2 * y.ratio.2)

def div (x y : Double) : Double :=
  ofRatio (x.ratio.1 * y.ratio.2) (x.ratio.2 * y.ratio.1)

def powerOfTen (n : Nat) : Double := ofRatio (Nat.pow 10 n) 1

/-- `significand * 10 ^ exponent`, where the significand, the power of ten and their
product or quotient are each rounded; below `10 ^ (-308)` the division is done in two
steps. There is no result when it would be infinite. -/
def ofDecimal (significand : Nat) (exponent : Int) : Option Double :=
  let x := ofRatio significand 1
  if significand = 0 then some zero
  else if 308 < exponent then none
  else if 0 ≤ exponent then
    let y := x.mul (powerOfTen exponent.toNat)
    if y.isInfinite then none else some y
  else if -308 ≤ exponent then some (x.div (powerOfTen (-exponent).toNat))
  else if -616 ≤ exponent then
    some ((x.div (powerOfTen 308)).div (powerOfTen (-exponent - 308).toNat))
  else some zero

end Double

end TypedContent

import TypedContent.Double.Basic

/-!
# The fewest decimal digits that read back

A decimal reads back as a double when it lies in the interval of numbers that round
to it. For one digit, two digits and so on the two neighbours of the value on that
decimal grid are tried; the first grid with a hit gives the digits, and of two hits the
nearer one is taken.
-/

namespace TypedContent

structure Decimal where
  significand : Nat
  exponent : Int
  deriving DecidableEq

namespace Double

/-- The numbers that round to a double, with the double itself, all over one denominator. -/
structure Interval where
  low : Nat
  value : Nat
  high : Nat
  den : Nat
  closed : Bool

/-- The interval of a positive double: half way to each neighbour, where the lower
neighbour of a power of two is only half as far away as the upper one. -/
def interval (x : Double) : Interval :=
  let (m, e) := x.decompose
  let below := if m = Nat.pow 2 52 ∧ 0 < e then 1 else 2
  let unit := Nat.pow 2 e
  { low := (4 * m - below) * unit
    value := 4 * m * unit
    high := (4 * m + 2) * unit
    den := Nat.pow 2 1076
    closed := m % 2 = 0 }

def Interval.contains (i : Interval) (c : Nat) (g : Int) : Bool :=
  let point := c * Nat.pow 10 g.toNat * i.den
  let scale := Nat.pow 10 (-g).toNat
  if i.closed then i.low * scale ≤ point && point ≤ i.high * scale
  else i.low * scale < point && point < i.high * scale

/-- Twice the value on the grid of `10 ^ g`, less twice `c`, in the interval's units:
positive when `c` is below the value. -/
def Interval.above (i : Interval) (c : Nat) (g : Int) : Int :=
  ((i.value * Nat.pow 10 (-g).toNat : Nat) : Int) - (c * Nat.pow 10 g.toNat * i.den : Nat)

def digitCount (n : Nat) : Nat := (Nat.toDigits 10 n).length

def decimalPoint (num den : Nat) : Int :=
  if den ≤ num then digitCount (num / den)
  else
    let n := digitCount (den / num)
    if den = num * Nat.pow 10 (n - 1) then 2 - n else 1 - n

/-- The neighbours of the value on the grid of `10 ^ g` that read back; the nearer one, a
tie going to the even one. -/
def Interval.hit? (i : Interval) (g : Int) : Option Nat :=
  let c := (i.value * Nat.pow 10 (-g).toNat) / (i.den * Nat.pow 10 g.toNat)
  match i.contains c g, i.contains (c + 1) g with
  | true, false => some c
  | false, true => some (c + 1)
  | false, false => none
  | true, true =>
    let down := i.above c g
    let up := -i.above (c + 1) g
    if down < up ∨ (down = up ∧ c % 2 = 0) then some c else some (c + 1)

def Interval.search (i : Interval) (point : Int) (digits : Nat) : Nat → Decimal
  | 0 => ⟨i.value * Nat.pow 10 (digits - point).toNat / (i.den * Nat.pow 10 (point - digits).toNat), point - digits⟩
  | tries + 1 =>
    match i.hit? (point - digits) with
    | some c => ⟨c, point - digits⟩
    | none => i.search point (digits + 1) tries

/-- The shortest decimal that reads back as a positive double; seventeen digits always do. -/
def shortest (x : Double) : Decimal :=
  let i := x.interval
  i.search (decimalPoint i.value i.den) 1 17

/-! ## The text of a double -/

def dropTrailingZeros (digits : List Char) : List Char :=
  (digits.reverse.dropWhile (· == '0')).reverse

/-- Digits `d₁d₂…` with the decimal point before digit number `point`: positional from
`0.00001` up to sixteen digits before the point, always with a decimal; else with an
exponent that carries its sign. -/
def layout (digits : List Char) (point : Int) : List Char :=
  if -4 ≤ point ∧ point ≤ 16 then
    if point ≤ 0 then '0' :: '.' :: (List.replicate (-point).toNat '0' ++ digits)
    else
      let n := point.toNat
      let whole := digits.take n
      let rest := digits.drop n
      whole ++ List.replicate (n - whole.length) '0' ++ '.' :: (if rest.isEmpty then ['0'] else rest)
  else
    let mantissa := match digits with
      | [d] => [d]
      | d :: rest => d :: '.' :: rest
      | [] => []
    let sign := if point ≤ 0 then '-' else '+'
    mantissa ++ 'e' :: sign :: Nat.toDigits 10 (point - 1).natAbs

def text (x : Double) : List Char :=
  let body :=
    if x.magnitude = 0 then ['0', '.', '0']
    else
      let d := (⟨UInt64.ofNat x.magnitude⟩ : Double).shortest
      let digits := Nat.toDigits 10 d.significand
      layout (dropTrailingZeros digits) (d.exponent + digits.length)
  if x.isNegative then '-' :: body else body

end Double

end TypedContent

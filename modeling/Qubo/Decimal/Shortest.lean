import Qubo.Decimal.Binary

/-!
The shortest decimal that reads back as a given float: of all decimals in the interval that
rounds to the float, the one with the fewest digits, and of those the nearest.
-/
namespace Qubo.Decimal

/-- The exponent of the leading digit of `num / den`, for positive numbers. -/
def leadingExponent (num den : Nat) : Int :=
  if den ≤ num then ((digits (num / den)).length : Int) - 1
  else -((digits ((den + num - 1) / num - 1)).length : Int)

/-- The interval of values that round to a float, with the float in it: all three in the same
unit, and whether the ends belong to it. -/
structure Interval where
  low : Nat
  value : Nat
  high : Nat
  closed : Bool

/-- The interval around `m * 2 ^ q`, in units of `2 ^ (q - 2)`. Below a power of two the floats
are twice as dense. -/
def Interval.around (m : Nat) (q : Int) : Interval where
  low := if m = hiddenBit ∧ q ≠ -1074 then 4 * m - 1 else 4 * m - 2
  value := 4 * m
  high := 4 * m + 2
  closed := m % 2 == 0

/-- Whether `c * den` lies in the interval scaled by `num`. -/
def Interval.contains (i : Interval) (num den c : Nat) : Bool :=
  if i.closed then i.low * num ≤ c * den && c * den ≤ i.high * num
  else i.low * num < c * den && c * den < i.high * num

/-- The multiple of a grid unit in the interval that is nearest to the value; an exact tie goes
to the even multiple. The unit is `den / num`. -/
def Interval.nearest? (i : Interval) (num den : Nat) : Option Nat :=
  let below := i.value * num / den
  let above := below + 1
  match i.contains num den below, i.contains num den above with
  | true, true =>
    let toBelow := i.value * num - below * den
    let toAbove := above * den - i.value * num
    if toBelow < toAbove then some below
    else if toAbove < toBelow then some above
    else some (if below % 2 = 0 then below else above)
  | true, false => some below
  | false, true => some above
  | false, false => none

/-- Tries decimal grids from coarse to fine, the exponent of the unit being `p` first. -/
def shortestFrom (i : Interval) (num den : Nat) : Nat → Int → Nat × Int
  | 0, p => (i.value * num / den, p)
  | n + 1, p =>
    let hit := if 0 ≤ p then i.nearest? num (den * tenTo p.toNat)
      else i.nearest? (num * tenTo (-p).toNat) den
    match hit with
    | some c => (c, p)
    | none => shortestFrom i num den n (p - 1)

/-- The shortest decimal for `m * 2 ^ q`, as a whole number and the power of ten it is
multiplied by. Seventeen digits always suffice. -/
def shortest (m : Nat) (q : Int) : Nat × Int :=
  let i := Interval.around m q
  let num : Nat := 1 <<< (q - 2).toNat
  let den : Nat := 1 <<< (2 - q).toNat
  shortestFrom i num den 17 (leadingExponent (i.value * num) den)

/-- The digits of a decimal without zeros at the end, and the exponent of the first of them. -/
def scientific (c : Nat) (p : Int) : List Digit × Int :=
  let ds := digitsReversed c
  (match ds.dropWhile (· == .zero) with
    | [] => [.zero]
    | kept => kept.reverse, p + ds.length - 1)

end Qubo.Decimal

import Qubo.Decimal.Shortest

/-!
Numbers as JSON writes them, digit by digit: what float or whole number a numeral stands for,
and the numeral that a float is written as.
-/
namespace Qubo
open Decimal

namespace Json

inductive ExponentSign where
  | bare
  | plus
  | minus
  deriving DecidableEq, Repr

/-- The part of a numeral after the letter `e`. -/
structure Exponent where
  sign : ExponentSign
  digits : List Digit
  deriving DecidableEq, Repr

/-- A number literal. There is a point only if there are digits after it. -/
structure Numeral where
  negative : Bool
  whole : List Digit
  fraction : List Digit
  exponent : Option Exponent
  deriving DecidableEq, Repr

namespace Numeral

/-- A literal without point and exponent. -/
def isWhole (n : Numeral) : Bool := n.fraction.isEmpty && n.exponent.isNone

/-- The value of a whole literal without a minus sign that fits a 64-bit word. -/
def toWord? (n : Numeral) : Option Nat :=
  if n.isWhole && !n.negative && value n.whole < UInt64.size then some (value n.whole) else none

/-- Appends digits to a significand as long as it fits a 64-bit word; the others are left. -/
def absorb (significand : Nat) : List Digit → Nat × List Digit
  | [] => (significand, [])
  | d :: ds =>
    let next := 10 * significand + d.val
    if next < UInt64.size then absorb next ds else (significand, d :: ds)

/-- The largest exponent that is read as a number. -/
def maxExponent : Nat := 2147483647

/-- A power of ten as a float, for exponents up to 308. -/
def powerOfTen (k : Nat) : Float := Float.ofScientific 1 false k

/-- A float times a power of ten, rounded once if the power is within 308; none beyond the
range of floats. The count bounds the divisions by `10 ^ 308`, of which three give zero. -/
def scale : Nat → Float → Int → Option Float
  | count, x, e =>
    if e.natAbs ≤ 308 then
      if 0 ≤ e then
        let y := x * powerOfTen e.natAbs
        if y == 1.0 / 0.0 then none else some y
      else some (x / powerOfTen e.natAbs)
    else if x == 0.0 then some x
    else if 0 ≤ e then none
    else match count with
      | 0 => some 0.0
      | count + 1 => scale count (x / powerOfTen 308) (e + 308)

/-- The float without its sign: the leading digits that fit a word, rounded to a float, times a
power of ten. None when that is beyond the range of floats. -/
def magnitude? (n : Numeral) : Option Float :=
  let (significand, restWhole) := absorb 0 n.whole
  let (significand, restFraction) := absorb significand n.fraction
  let shift : Int := restWhole.length - (n.fraction.length - restFraction.length : Nat)
  let x := (UInt64.ofNat significand).toFloat
  match n.exponent with
  | none => scale 3 x shift
  | some ⟨sign, ds⟩ =>
    let e := value ds
    if maxExponent < e then
      if significand ≠ 0 ∧ sign ≠ .minus then none else some 0.0
    else scale 3 x (if sign = .minus then shift - e else shift + e)

/-- The float that a literal stands for; none beyond the range of floats. -/
def toFloat? (n : Numeral) : Option Float :=
  n.magnitude?.map fun x => if n.negative then -x else x

def ofNat (n : Nat) : Numeral := ⟨false, digits n, [], none⟩

/-- The exponents of the leading digit for which the number is written without an exponent. -/
def positional (e : Int) : Bool := -5 ≤ e && e ≤ 15

/-- Writes digits with the point after the first one moved by `e` places: without an exponent
if that is near, and then with at least one digit after the point. -/
def ofScientific (negative : Bool) (ds : List Digit) (e : Int) : Numeral :=
  if positional e then
    if 0 ≤ e then
      let n := e.toNat + 1
      let fraction := ds.drop n
      { negative := negative
        whole := ds.take n ++ List.replicate (n - ds.length) .zero
        fraction := if fraction.isEmpty then [.zero] else fraction
        exponent := none }
    else
      { negative := negative
        whole := [.zero]
        fraction := List.replicate ((-e).toNat - 1) .zero ++ ds
        exponent := none }
  else
    { negative := negative
      whole := ds.take 1
      fraction := ds.drop 1
      exponent := some ⟨if 0 ≤ e then .plus else .minus, digits e.natAbs⟩ }

/-- The shortest literal of a float; none for what is no finite number. -/
def ofFloat? (x : Float) : Option Numeral :=
  match Parts.ofFloat x with
  | .finite negative m q =>
    if m = 0 then some (ofScientific negative [.zero] 0)
    else
      let (c, p) := shortest m q
      let (ds, e) := scientific c p
      some (ofScientific negative ds e)
  | _ => none

end Numeral

end Json

end Qubo

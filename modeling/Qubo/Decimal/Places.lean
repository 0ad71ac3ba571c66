import Qubo.Decimal.Binary

/-!
Numbers with a fixed count of decimal places. The exact value is rounded, and an exact tie goes
to the even last digit. The sign of zero is kept.
-/
namespace Qubo.Decimal

/-- The whole number nearest to `num / den`, the even one of two. -/
def roundDiv (num den : Nat) : Nat :=
  let quotient := num / den
  let twice := 2 * (num % den)
  if twice < den then quotient
  else if den < twice then quotient + 1
  else quotient + quotient % 2

/-- `m * 2 ^ q * 10 ^ places`, rounded. -/
def scaled (places m : Nat) (q : Int) : Nat :=
  roundDiv ((m * tenTo places) <<< q.toNat) (1 <<< (-q).toNat)

/-- A whole number of units of `10 ^ -places` as text. -/
def pointed (places units : Nat) : String :=
  let ds := text (digits units)
  let ds := List.replicate (places + 1 - ds.length) '0' ++ ds
  let whole := String.ofList (ds.take (ds.length - places))
  if places = 0 then whole else s!"{whole}.{String.ofList (ds.drop (ds.length - places))}"

/-- The text of a number with a fixed count of places; `positive` is written before a number
that has no minus sign. -/
def signedFixed (positive : String) (places : Nat) (x : Float) : String :=
  let sign (negative : Bool) : String := if negative then "-" else positive
  match Parts.ofFloat x with
  | .nan => "NaN"
  | .infinite negative => s!"{sign negative}inf"
  | .finite negative m q => s!"{sign negative}{pointed places (scaled places m q)}"

/-- The text of a number with a fixed count of places. -/
def fixed (places : Nat) (x : Float) : String := signedFixed "" places x

/-- The same with a plus sign before numbers that have no minus sign. -/
def fixedWithSign (places : Nat) (x : Float) : String := signedFixed "+" places x

end Qubo.Decimal

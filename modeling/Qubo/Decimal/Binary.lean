/-!
A float taken apart into sign, whole significand and binary exponent.
-/
namespace Qubo.Decimal

inductive Parts where
  | nan
  | infinite (negative : Bool)
  /-- Plus or minus `significand * 2 ^ exponent`. -/
  | finite (negative : Bool) (significand : Nat) (exponent : Int)
  deriving DecidableEq, Repr

/-- The bit of the significand that the pattern of a normal float leaves out. -/
def hiddenBit : Nat := 1 <<< 52

def Parts.ofFloat (x : Float) : Parts :=
  let bits : Nat := x.toBits.toNat
  let negative := bits.testBit 63
  let biased : Nat := (bits >>> 52) % 2048
  let fraction : Nat := bits % hiddenBit
  if biased = 2047 then if fraction = 0 then .infinite negative else .nan
  else if biased = 0 then .finite negative fraction (-1074)
  else .finite negative (fraction + hiddenBit) ((biased : Int) - 1075)

abbrev Digit := Fin 10

namespace Digit

def zero : Digit := Fin.ofNat 10 0

def toChar (d : Digit) : Char := Char.ofNat (48 + d.val)

def ofChar? (c : Char) : Option Digit :=
  if '0' ≤ c ∧ c ≤ '9' then some (Fin.ofNat 10 (c.toNat - 48)) else none

end Digit

def tenTo (n : Nat) : Nat := Nat.pow 10 n

/-- The digits of a number, the last one foremost. -/
def digitsReversed (n : Nat) : List Digit :=
  if n < 10 then [Fin.ofNat 10 n] else Fin.ofNat 10 (n % 10) :: digitsReversed (n / 10)
termination_by n

/-- The digits of a number; zero has one. -/
def digits (n : Nat) : List Digit := (digitsReversed n).reverse

def value (ds : List Digit) : Nat := ds.foldl (fun acc d => 10 * acc + d.val) 0

def text (ds : List Digit) : List Char := ds.map Digit.toChar

end Qubo.Decimal

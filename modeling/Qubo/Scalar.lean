/-!
Numbers that energies are computed in. The solvers and reports are written once for any
`Scalar`; machine floats run them, and exact rationals are the arithmetic the laws speak of.
-/
namespace Qubo

/-- Ordered arithmetic, with the few facts about its limits that the algorithms need. -/
class Scalar (α : Type) extends Add α, Sub α, Mul α, Div α, Neg α, LT α, LE α, NatCast α where
  /-- Adding any value to it gives that value back unchanged; every sum starts here. -/
  neutral : α
  ltDecidable : DecidableLT α
  leDecidable : DecidableLE α
  /-- Tells whether a value lies below every upper bound, so that a search may keep it. -/
  isBounded : α → Bool
  /-- A number of steps after which a strictly shrinking geometric sequence from the first
  argument, with the third as its ratio, is no longer above the second. -/
  decayBound : α → α → α → Nat

/-- Exponential, hyperbolic tangent, natural logarithm and square root. No law is asked of
them: exact arithmetic takes any four functions. -/
class Transcendental (α : Type) where
  exp : α → α
  tanh : α → α
  log : α → α
  sqrt : α → α

namespace Scalar
variable {α : Type} [Scalar α]

instance : DecidableLT α := Scalar.ltDecidable
instance : DecidableLE α := Scalar.leDecidable

@[specialize] def ratio (n d : Nat) : α := (n : α) / (d : α)

def zero : α := (0 : Nat)
def one : α := (1 : Nat)
def two : α := (2 : Nat)
@[specialize] def half : α := ratio 1 2
@[specialize] def quarter : α := ratio 1 4

/-- Energies that differ by no more than this count as equal. -/
@[specialize] def tolerance : α := ratio 1 1000000000

@[specialize] def magnitude (x : α) : α := if x < zero then -x else x

/-- The value itself when positive, and zero otherwise. -/
@[specialize] def clampNegative (x : α) : α := if zero < x then x else zero

@[specialize] def sum (xs : List α) : α := xs.foldl (· + ·) neutral

/-- Sum of the products of matching entries, over the shorter list. -/
@[specialize] def dot (xs ys : List α) : α := sum (List.zipWith (· * ·) xs ys)

end Scalar

/-- Machine floats. Minus zero is the neutral element: adding it keeps even the sign of zero.
Two positive floats are as many representable values apart as their bit patterns. -/
instance : Scalar Float where
  natCast := Float.ofNat
  neutral := -0.0
  ltDecidable := inferInstance
  leDecidable := inferInstance
  isBounded x := x < 1.0 / 0.0
  decayBound start stop _ := start.toBits.toNat - stop.toBits.toNat + 1

instance : Transcendental Float where
  exp := Float.exp
  tanh := Float.tanh
  log := Float.log
  sqrt := Float.sqrt

/-- Exact rationals. By Bernoulli's inequality, `k` steps by a ratio `r` in `(0, 1)` shrink a
positive value at least `k * (1 - r)` times. -/
instance : Scalar Rat where
  neutral := 0
  ltDecidable := inferInstance
  leDecidable := inferInstance
  isBounded _ := true
  decayBound start stop ratio := (start / (stop * (1 - ratio))).ceil.toNat + 1

end Qubo

import Qubo.Dense
import Qubo.Search.Session

/-!
Exhaustive search over all assignments of a dense problem, in the order of their packed words.
-/
namespace Qubo.Search

/-- Keys are packed assignments; regions are ranges of them. -/
abbrev denseFamily (α : Type) : Family where
  Problem := Matrix α
  Key := Nat
  Region := Nat × Nat
  Tile := Nat
  Solution := Bits

/-- The first of several numbers of variables that is too large to be packed is an error. -/
def checkPackable : List Nat → Except SolverError Unit
  | [] => .ok ()
  | n :: ns =>
    if Bits.maxPacked < n then .error (.problemTooLarge n Bits.maxPacked) else checkPackable ns

variable {α : Type} [Scalar α]

/-- The packed assignments from the first number up to the second, clipped to the space. -/
@[specialize] def denseCandidates (w : Matrix α) (region : Nat × Nat) : List (Nat × α) :=
  (span (region.1, min region.2 (Bits.count w.rows))).map fun key =>
    (key, Dense.quadratic w (Bits.ofPacked key w.rows).reals)

instance : Enumerable (denseFamily α) α where
  extent w := .dense w.rows
  check w := do
    Dense.check w
    checkPackable [w.rows]
  signed w d := d.sign w
  widen tile := max tile 1
  regions w tile := tiles (Bits.count w.rows) tile
  candidates := denseCandidates
  solution w key := .ofPacked key w.rows
  assignment := .dense

abbrev DenseSession (α : Type) := Session (denseFamily α) α

def DenseSession.new : DenseSession α := Session.new 1024

end Qubo.Search

import Qubo.Bits
import Qubo.Matrix
import Qubo.Random.Draw

/-!
A sweep of single-spin trials over trotter slices. All draws of a sweep are made first: each
trial proposes a variable and a slice and brings the number that decides it. Then the trials
are applied one after the other.
-/
namespace Qubo.Anneal
variable {α : Type} [Scalar α]

/-- One trial of a sweep. -/
structure Proposal (α : Type) where
  site : Nat
  slice : Nat
  /-- Uniform in `[0, 1)`. -/
  chance : α
  deriving DecidableEq, Repr

/-- A trial on `n` variables in `m` slices. -/
@[specialize] def propose (n m : Nat) : Random.Draw (Proposal α) := fun g =>
  let (iq, g) := Random.Draw.below n g
  let (im, g) := Random.Draw.below m g
  let (u, g) := Random.Draw.unit g
  (⟨iq, im, u⟩, g)

/-- As many trials as there are spins. -/
@[specialize] def proposals (n m : Nat) : Random.Draw (List (Proposal α)) :=
  Random.Draw.many (propose n m) (n * m)

/-- Coupling of neighbouring slices in a transverse field `g` at temperature `kt`. -/
@[specialize] def trotterCoupling [Transcendental α] (g kt : α) (m : Nat) : α :=
  kt * Transcendental.log (Transcendental.tanh (g / kt / ((m : Nat) : α)))

/-- Change of energy when a spin flips that feels `field` within its slice, and the coupling to
the same variable in the two neighbouring slices of the ring. -/
@[specialize] def flipCost (coupling : α) (q : Matrix α) (p : Proposal α) (field : α) : α :=
  let m := q.rows
  let s := q.entry p.slice p.site
  let de := -(Scalar.two / ((m : Nat) : α)) * s * field
  if 1 < m then
    let before := q.entry ((p.slice + m - 1) % m) p.site
    let after := q.entry ((p.slice + 1) % m) p.site
    de - s * (before + after) * coupling
  else de

/-- Metropolis rule: a flip that lowers the energy is taken, any other with the probability
`exp (-de / kt)`. -/
@[specialize] def accepts [Transcendental α] (kt de chance : α) : Bool :=
  let threshold := if de < Scalar.zero then Scalar.one
    else Transcendental.exp (-de * (Scalar.one / kt))
  decide (chance < threshold)

@[specialize] def flip (q : Matrix α) (p : Proposal α) : Matrix α :=
  q.set p.slice p.site (-(q.entry p.slice p.site))

/-- Applies one trial; `field` is what a spin feels within its slice. -/
@[specialize] def trial [Transcendental α] (coupling kt : α)
    (field : Matrix α → Proposal α → α) (q : Matrix α) (p : Proposal α) : Matrix α :=
  if accepts kt (flipCost coupling q p (field q p)) p.chance then flip q p else q

@[specialize] def sweep [Transcendental α] (g kt : α) (field : Matrix α → Proposal α → α)
    (q : Matrix α) (ps : List (Proposal α)) : Matrix α :=
  ps.foldl (trial (trotterCoupling g kt q.rows) kt field) q

/-- Random spins of `n` variables in `m` slices, slice by slice. -/
@[specialize] def randomSpins (n m : Nat) : Random.Draw (Matrix α) := fun g =>
  let (spins, g) := Random.Draw.many Random.Draw.spin (m * n) g
  let spins := spins.toArray
  (.generate m n fun r c => spins.getD (r * n + c) Scalar.zero, g)

/-- The spins of one assignment in every slice. -/
@[specialize] def uniformSpins (m : Nat) (x : Bits) : Matrix α :=
  let spins : Array α := x.spins.toArray
  .generate m x.size fun _ c => spins.getD c Scalar.zero

/-- The sign of each spin: 1 above zero, and −1 otherwise. -/
@[specialize] def signs (q : List α) : List Int := q.map fun v => if Scalar.zero < v then 1 else -1

end Qubo.Anneal

import Qubo.Anneal.Session
import Qubo.Dense

/-!
Annealing of dense problems: one layer of spins, in `m` slices of `n` variables.
-/
namespace Qubo.Anneal

abbrev denseFamily (α : Type) : Family where
  Problem := Matrix α
  Model := Dense.Ising α
  Spins := Matrix α
  Solution := Bits
  Signs := List Int

variable {α : Type} [Scalar α]

/-- What a spin feels within its slice. The couplings are symmetric, so each of them occurs
twice in the energy. -/
@[specialize] def denseField (model : Dense.Ising α) (q : Matrix α) (p : Proposal α) : α :=
  model.h.getD p.site Scalar.zero +
    Scalar.two * Scalar.dot (model.j.row p.site) (q.row p.slice)

@[specialize] def denseStep [Transcendental α] (model : Dense.Ising α) (m : Nat) (g kt : α)
    (q : Matrix α) : Random.Draw (Matrix α) := fun rng =>
  let (ps, rng) := proposals model.size m rng
  (sweep g kt (denseField model) q ps, rng)

@[specialize] def denseRead (model : Dense.Ising α) (d : Direction) (q : Matrix α) (slice : Nat) :
    Reading (denseFamily α) α where
  energy := d.sign (model.energy (q.row slice))
  solution := .ofSpins (q.row slice)
  signs := signs (q.row slice)

instance [Transcendental α] : Annealable (denseFamily α) α where
  model := Dense.ising
  signed := Dense.Ising.signed
  extent model := .dense model.size
  checkStart model x :=
    if x.size ≠ model.size then .error (.shapeMismatch .start (1, model.size) (1, x.size))
    else .ok ()
  start := uniformSpins
  random model m := randomSpins model.size m
  step := denseStep
  read := denseRead
  assignment := .dense

abbrev DenseSession (α : Type) := Session (denseFamily α) α

end Qubo.Anneal

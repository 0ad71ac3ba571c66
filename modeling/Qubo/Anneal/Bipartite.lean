import Qubo.Anneal.Session
import Qubo.Bipartite

/-!
Annealing of bipartite problems. A step sweeps the second layer with the first one held fixed,
and then the first layer with the new second one held fixed. Within half a step the fields of
the fixed layer do not change, so they are computed once per slice.
-/
namespace Qubo.Anneal

/-- The spins of both layers, each with one row per slice. -/
structure LayerSpins (α : Type) where
  q0 : Matrix α
  q1 : Matrix α

abbrev bipartiteFamily (α : Type) : Family where
  Problem := Bipartite.Coefficients α
  Model := Bipartite.Ising α
  Spins := LayerSpins α
  Solution := BitsPair
  Signs := List Int × List Int

variable {α : Type} [Scalar α]

/-- What each variable of the moving layer feels from the fixed one, slice by slice. -/
@[specialize] def layerFields (j qFixed : Matrix α) (m : Nat) : Array (Array α) :=
  ((List.range m).map fun im => (j.mulVec (qFixed.row im)).toArray).toArray

/-- What a spin of the moving layer feels: its bias and the field of the fixed layer. -/
@[specialize] def layerField (h : List α) (fields : Array (Array α)) (_ : Matrix α)
    (p : Proposal α) : α :=
  h.getD p.site Scalar.zero + (fields.getD p.slice #[]).getD p.site Scalar.zero

/-- A sweep of one layer with biases `h`; `j` has one row per moving variable. -/
@[specialize] def halfStep [Transcendental α] (h : List α) (j qFixed : Matrix α) (m : Nat)
    (g kt : α) (q : Matrix α) : Random.Draw (Matrix α) := fun rng =>
  let (ps, rng) := proposals h.length m rng
  (sweep g kt (layerField h (layerFields j qFixed m)) q ps, rng)

@[specialize] def bipartiteStep [Transcendental α] (model : Bipartite.Ising α) (m : Nat)
    (g kt : α) (q : LayerSpins α) : Random.Draw (LayerSpins α) := fun rng =>
  let (q1, rng) := halfStep model.h1 model.j q.q0 m g kt q.q1 rng
  let (q0, rng) := halfStep model.h0 model.j.transpose q1 m g kt q.q0 rng
  (⟨q0, q1⟩, rng)

@[specialize] def bipartiteRandom (model : Bipartite.Ising α) (m : Nat) :
    Random.Draw (LayerSpins α) := fun rng =>
  let (q0, rng) := randomSpins model.h0.length m rng
  let (q1, rng) := randomSpins model.h1.length m rng
  (⟨q0, q1⟩, rng)

@[specialize] def bipartiteRead (model : Bipartite.Ising α) (d : Direction) (q : LayerSpins α)
    (slice : Nat) : Reading (bipartiteFamily α) α where
  energy := d.sign (model.energy (q.q0.row slice) (q.q1.row slice))
  solution := ⟨.ofSpins (q.q0.row slice), .ofSpins (q.q1.row slice)⟩
  signs := (signs (q.q0.row slice), signs (q.q1.row slice))

instance [Transcendental α] : Annealable (bipartiteFamily α) α where
  model := Bipartite.Coefficients.ising
  signed := Bipartite.Ising.signed
  extent model := .bipartite model.h0.length model.h1.length
  checkStart model x :=
    if x.x0.size ≠ model.h0.length then
      .error (.shapeMismatch .start0 (1, model.h0.length) (1, x.x0.size))
    else if x.x1.size ≠ model.h1.length then
      .error (.shapeMismatch .start1 (1, model.h1.length) (1, x.x1.size))
    else .ok ()
  start m x := ⟨uniformSpins m x.x0, uniformSpins m x.x1⟩
  random := bipartiteRandom
  step := bipartiteStep
  read := bipartiteRead
  assignment := .bipartite

abbrev BipartiteSession (α : Type) := Session (bipartiteFamily α) α

end Qubo.Anneal

import Qubo.Bits
import Qubo.Matrix
import Qubo.SolverError

/-!
Problems whose variables form two layers, coupled only across: the energy
`b0·x0 + b1·x1 + x1ᵀ W x0` of a pair of assignments, and the same energy in spin form,
`c + h0·q0 + h1·q1 + q1ᵀ J q0`.
-/
namespace Qubo.Bipartite
variable {α : Type} [Scalar α]

/-- Biases of both layers and the couplings, one row per variable of the second layer. -/
structure Coefficients (α : Type) where
  b0 : List α
  b1 : List α
  w : Matrix α

namespace Coefficients

def size (p : Coefficients α) : Nat × Nat := (p.b0.length, p.b1.length)

/-- The couplings have to have one row per variable of the second layer and one column per
variable of the first. -/
def check (p : Coefficients α) : Except SolverError Unit :=
  if p.w.shape ≠ (p.b1.length, p.b0.length) then
    .error (.shapeMismatch .bipartiteMatrix (p.b1.length, p.b0.length) p.w.shape)
  else .ok ()

/-- Energy of two vectors of numbers. -/
@[specialize] def value (p : Coefficients α) (x0 x1 : List α) : α :=
  Scalar.dot p.b0 x0 + Scalar.dot p.b1 x1 + Scalar.dot x1 (p.w.mulVec x0)

/-- Energy of a pair of assignments, which have to have one value per variable. -/
@[specialize] def energy (p : Coefficients α) (x : BitsPair) : Except SolverError α := do
  p.check
  if x.x0.size ≠ p.b0.length then
    throw (.shapeMismatch .bipartiteBits0 (1, p.b0.length) (1, x.x0.size))
  if x.x1.size ≠ p.b1.length then
    throw (.shapeMismatch .bipartiteBits1 (1, p.b1.length) (1, x.x1.size))
  return p.value x.x0.reals x.x1.reals

/-- Every coefficient with the sign of the direction. -/
@[specialize] def signed (p : Coefficients α) (d : Direction) : Coefficients α :=
  { b0 := p.b0.map d.sign, b1 := p.b1.map d.sign, w := d.sign p.w }

end Coefficients

/-- Spin form of a bipartite problem. -/
structure Ising (α : Type) where
  h0 : List α
  h1 : List α
  j : Matrix α
  c : α

namespace Ising

def size (m : Ising α) : Nat × Nat := (m.h0.length, m.h1.length)

@[specialize] def energy (m : Ising α) (q0 q1 : List α) : α :=
  m.c + Scalar.dot m.h0 q0 + Scalar.dot m.h1 q1 + Scalar.dot q1 (m.j.mulVec q0)

/-- Energy of two spin vectors, which have to have one spin per variable. -/
@[specialize] def energyOf (m : Ising α) (q0 q1 : List α) : Except SolverError α := do
  if q0.length ≠ m.h0.length then
    throw (.shapeMismatch .bipartiteSpins0 (1, m.h0.length) (1, q0.length))
  if q1.length ≠ m.h1.length then
    throw (.shapeMismatch .bipartiteSpins1 (1, m.h1.length) (1, q1.length))
  return m.energy q0 q1

/-- Every coefficient with the sign of the direction. -/
@[specialize] def signed (m : Ising α) (d : Direction) : Ising α :=
  { h0 := m.h0.map d.sign, h1 := m.h1.map d.sign, j := d.sign m.j, c := d.sign m.c }

end Ising

/-- Half the bias and a quarter of the couplings of each variable. -/
@[specialize] def localField (bias couplings : List α) : List α :=
  List.zipWith (fun b s => Scalar.half * b + Scalar.quarter * s) bias couplings

@[specialize] def Coefficients.ising (p : Coefficients α) : Except SolverError (Ising α) := do
  p.check
  return {
    h0 := localField p.b0 p.w.colSums
    h1 := localField p.b1 p.w.rowSums
    j := p.w.scale Scalar.quarter
    c := Scalar.half * Scalar.sum p.b0 + Scalar.half * Scalar.sum p.b1 +
      Scalar.quarter * p.w.sum }

end Qubo.Bipartite

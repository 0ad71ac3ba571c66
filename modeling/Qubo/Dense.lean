import Qubo.Bits
import Qubo.Matrix
import Qubo.SolverError

/-!
Problems in which any two variables may be coupled: the energy `xᵀ W x` of an assignment, and
the same energy in spin form, `c + h·q + qᵀ J q` for spins `q = 2x - 1`.
-/
namespace Qubo.Dense
variable {α : Type} [Scalar α]

/-- The coefficient matrix has to be square and, up to the tolerance, symmetric. -/
@[specialize] def check (w : Matrix α) : Except SolverError Unit :=
  if !w.isSquare then .error (.shapeMismatch .denseMatrix (w.rows, w.rows) w.shape)
  else if !w.isSymmetric Scalar.tolerance then .error (.notSymmetric .denseMatrix)
  else .ok ()

/-- `xᵀ W x` for a vector of numbers. -/
@[specialize] def quadratic (w : Matrix α) (x : List α) : α := Scalar.dot x (w.mulVec x)

/-- Energy of an assignment, which has to have one value per variable. -/
@[specialize] def energy (w : Matrix α) (x : Bits) : Except SolverError α := do
  check w
  if x.size ≠ w.rows then
    throw (.shapeMismatch .denseBits (1, w.rows) (1, x.size))
  return quadratic w x.reals

/-- Energies of several assignments; the matrix is checked even when there are none. -/
@[specialize] def energies (w : Matrix α) (xs : List Bits) : Except SolverError (List α) := do
  check w
  xs.mapM (energy w)

/-- Spin form of a dense problem; `J` has a zero diagonal. -/
structure Ising (α : Type) where
  h : List α
  j : Matrix α
  c : α

namespace Ising

def size (m : Ising α) : Nat := m.h.length

@[specialize] def energy (m : Ising α) (q : List α) : α :=
  m.c + Scalar.dot m.h q + Scalar.dot q (m.j.mulVec q)

/-- Energy of a spin vector, which has to have one spin per variable. -/
@[specialize] def energyOf (m : Ising α) (q : List α) : Except SolverError α :=
  if q.length ≠ m.size then .error (.shapeMismatch .denseSpins (1, m.size) (1, q.length))
  else .ok (m.energy q)

/-- Every coefficient with the sign of the direction. -/
@[specialize] def signed (m : Ising α) (d : Direction) : Ising α :=
  { h := m.h.map d.sign, j := d.sign m.j, c := d.sign m.c }

end Ising

/-- Rewrites `xᵀ W x` into spin form. -/
@[specialize] def ising (w : Matrix α) : Except SolverError (Ising α) := do
  check w
  return {
    h := w.rowSums.map (Scalar.half * ·)
    j := (w.scale Scalar.quarter).setDiagonal Scalar.zero
    c := Scalar.quarter * w.sum + Scalar.quarter * w.trace }

end Qubo.Dense

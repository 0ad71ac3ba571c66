import Mathlib.Tactic
import Qubo.Proofs.Anneal.Dense
import Qubo.Proofs.Anneal.Store.Refine
import Qubo.Proofs.Anneal.Store.Sweep

/-! Annealing of dense problems in storage: one matrix of spins, and couplings with a row and a
column per variable. -/
namespace Qubo.Dense
open Checked (Fault)
variable {α : Type} [Scalar α]

/-- The spin form of a matrix, from entries looked up one after another. -/
def isingAt (w : Matrix α) : Except Fault (Except SolverError (Ising α)) := do
  if !w.isSquare then return .error (.shapeMismatch .denseMatrix (w.rows, w.rows) w.shape)
  if !(← w.isSymmetricAt Scalar.tolerance) then return .error (.notSymmetric .denseMatrix)
  let sums ← w.rowSumsAt
  let j ← (w.scale Scalar.quarter).setDiagonalAt Scalar.zero
  let trace ← w.traceAt
  return .ok {
    h := sums.map (Scalar.half * ·)
    j := j
    c := Scalar.quarter * w.sum + Scalar.quarter * trace }

theorem isingAt_eq (w : Matrix α) : isingAt w = .ok (ising w) := by
  rw [isingAt, ising, check, w.isSymmetricAt_eq]
  cases hsquare : w.isSquare with
  | false => rfl
  | true =>
    cases hsymmetric : w.isSymmetric Scalar.tolerance with
    | false => rfl
    | true =>
      simp only [bind, Except.bind, w.rowSumsAt_eq, Matrix.setDiagonalAt_eq, w.traceAt_eq]
      rfl

def Ising.energyAt (model : Ising α) (q : List α) : Except Fault α :=
  return model.c + Scalar.dot model.h q + Scalar.dot q (← model.j.mulVecAt q)

theorem Ising.energyAt_eq (model : Ising α) (q : List α) :
    model.energyAt q = .ok (model.energy q) := by
  rw [Ising.energyAt, model.j.mulVecAt_eq]
  rfl

/-- As many rows and columns of couplings as variables. -/
def Ising.IsSquare (model : Ising α) : Prop :=
  model.j.rows = model.size ∧ model.j.cols = model.size

theorem isSquare_signed_of_ising {w : Matrix α} {model : Ising α} (h : ising w = .ok model)
    (d : Direction) : (model.signed d).IsSquare := by
  have hsize := size_ising h
  obtain ⟨hcheck, hmodel⟩ := ising_eq_ok_iff.mp h
  have hsquare := isSquare_of_check hcheck
  have hrows : model.j.rows = w.rows := by rw [hmodel]; rfl
  have hcols : model.j.cols = w.cols := by rw [hmodel]; rfl
  constructor
  · rw [Ising.size_signed, hsize, ← hrows]
    exact model.j.rows_sign d
  · rw [Ising.size_signed, hsize, hsquare, ← hcols]
    exact model.j.cols_sign d

end Qubo.Dense

namespace Qubo.Anneal
open Checked (Fault)
variable {α : Type} [Scalar α]

/-- What a spin feels within its slice. -/
def denseFieldAt (model : Dense.Ising α) (q : Matrix α) (site slice : ℕ) : Except Fault α := do
  let bias ← Checked.demand model.h[site]?
  let couplings ← model.j.rowAt site
  let spins ← q.rowAt slice
  return bias + Scalar.two * Scalar.dot couplings spins

theorem finds_denseField {model : Dense.Ising α} (hsquare : model.IsSquare) (m : ℕ) :
    Finds m model.size (denseFieldAt model) (denseField model) := by
  intro q p hrows hcols hslice hsite
  have hbias : model.h[p.site]? = some (model.h.getD p.site Scalar.zero) := by
    rw [List.getD_eq_getElem?_getD, List.getElem?_eq_getElem hsite, Option.getD_some]
  rw [denseFieldAt, Checked.demand_eq hbias, model.j.rowAt_eq (hsquare.1 ▸ hsite),
    q.rowAt_eq (hrows ▸ hslice)]
  rfl

instance [Transcendental α] : Storable (denseFamily α) α where
  model := Dense.isingAt
  empty := .empty
  allocate model m := Matrix.allocate m model.size
  start := uniformAt
  random := randomAt
  step model g kt q rng := sweepAt (return denseFieldAt model) g kt q rng
  read model d q k := do
    let spins ← q.rowAt k
    let energy ← model.energyAt spins
    return ⟨d.sign energy, .ofSpins spins, signs spins⟩

/-- Square couplings, a row of spins per slice, and room for every spin of a matrix. -/
def denseLayout (α : Type) [Scalar α] [Transcendental α] : Layout (denseFamily α) where
  Shaped := Dense.Ising.IsSquare
  Fits := FitsDense
  Room model m := m * model.size < Matrix.capacity

theorem faithful_dense [Transcendental α] : Faithful (denseLayout α) where
  model := Dense.isingAt_eq
  shaped _ _ d h := Dense.isSquare_signed_of_ising h d
  allocate model m := by
    by_cases hroom : m * model.size < Matrix.capacity
    · exact Or.inl ⟨_, if_pos hroom, rfl, rfl⟩
    · exact Or.inr ⟨if_neg hroom, hroom⟩
  start model m x q hq hx := uniformAt_eq hq.1 (hq.2.trans (checkStart_dense_iff.mp hx).symm)
  random _ _ _ g hq := randomAt_eq hq.1 hq.2 g
  step model m g kt q rng hsquare hm hq :=
    sweepAt_eq rfl (finds_denseField hsquare m) hm g kt hq.1 hq.2 rng
  read model m d q k _ hq hk := by
    have hrow := q.rowAt_eq (hq.1 ▸ hk)
    simp only [Storable.read, hrow, bind, Except.bind, model.energyAt_eq]
    rfl
  steady := steady_fitsDense

end Qubo.Anneal

import Mathlib.Tactic
import Qubo.Proofs.Anneal.Bipartite
import Qubo.Proofs.Anneal.Store.Refine
import Qubo.Proofs.Anneal.Store.Sweep

/-! Annealing of bipartite problems in storage: a matrix of spins for either layer, and couplings
with a row per variable of the second layer and a column per variable of the first. -/
namespace Qubo.Bipartite
open Checked (Fault)
variable {α : Type} [Scalar α]

/-- The spin form of a bipartite problem, from entries looked up one after another. -/
def Coefficients.isingAt (p : Coefficients α) : Except Fault (Except SolverError (Ising α)) :=
  match p.check with
  | .error e => return .error e
  | .ok _ => do
    let colSums ← p.w.colSumsAt
    let rowSums ← p.w.rowSumsAt
    return .ok {
      h0 := localField p.b0 colSums
      h1 := localField p.b1 rowSums
      j := p.w.scale Scalar.quarter
      c := Scalar.half * Scalar.sum p.b0 + Scalar.half * Scalar.sum p.b1 +
        Scalar.quarter * p.w.sum }

theorem Coefficients.isingAt_eq (p : Coefficients α) : p.isingAt = .ok p.ising := by
  rw [isingAt, ising]
  cases p.check with
  | error e => rfl
  | ok u =>
    rw [p.w.colSumsAt_eq, p.w.rowSumsAt_eq]
    rfl

def Ising.energyAt (model : Ising α) (q0 q1 : List α) : Except Fault α :=
  return model.c + Scalar.dot model.h0 q0 + Scalar.dot model.h1 q1 +
    Scalar.dot q1 (← model.j.mulVecAt q0)

theorem Ising.energyAt_eq (model : Ising α) (q0 q1 : List α) :
    model.energyAt q0 q1 = .ok (model.energy q0 q1) := by
  rw [Ising.energyAt, model.j.mulVecAt_eq]
  rfl

end Qubo.Bipartite

namespace Qubo.Anneal
open Checked (Fault)
variable {α : Type} [Scalar α]

/-- What every variable of the moving layer feels from the fixed one, slice by slice. -/
def layerFieldsAt (j qFixed : Matrix α) (m : ℕ) : Except Fault (List (List α)) :=
  (List.range m).mapM fun slice => do
    let spins ← qFixed.rowAt slice
    j.mulVecAt spins

theorem layerFieldsAt_eq (j : Matrix α) {qFixed : Matrix α} {m : ℕ} (hfixed : qFixed.rows = m) :
    layerFieldsAt j qFixed m =
      .ok ((List.range m).map fun slice => j.mulVec (qFixed.row slice)) := by
  refine Result.mapM_eq_ok fun slice hslice => ?_
  rw [qFixed.rowAt_eq (hfixed ▸ List.mem_range.mp hslice)]
  exact j.mulVecAt_eq _

def layerFieldAt (h : List α) (fields : List (List α)) (_ : Matrix α) (site slice : ℕ) :
    Except Fault α := do
  let bias ← Checked.demand h[site]?
  let felt ← Checked.demand fields[slice]?
  return bias + (← Checked.demand felt[site]?)

theorem finds_layerField {h : List α} {j : Matrix α} (hj : j.rows = h.length) (qFixed : Matrix α)
    (m : ℕ) : Finds m h.length
      (layerFieldAt h ((List.range m).map fun slice => j.mulVec (qFixed.row slice)))
      (layerField h (layerFields j qFixed m)) := by
  intro q p _ _ hslice hsite
  have hbias : h[p.site]? = some (h.getD p.site Scalar.zero) := by
    rw [List.getD_eq_getElem?_getD, List.getElem?_eq_getElem hsite, Option.getD_some]
  have hfelt : ((List.range m).map fun slice => j.mulVec (qFixed.row slice))[p.slice]? =
      some (j.mulVec (qFixed.row p.slice)) := by
    rw [List.getElem?_map, List.getElem?_range hslice, Option.map_some]
  have hentry : (j.mulVec (qFixed.row p.slice))[p.site]? =
      some (((layerFields j qFixed m).getD p.slice #[]).getD p.site Scalar.zero) := by
    have hlength : p.site < (j.mulVec (qFixed.row p.slice)).length := by
      rwa [j.length_mulVec, hj]
    have hfields : (layerFields j qFixed m).getD p.slice #[] =
        (j.mulVec (qFixed.row p.slice)).toArray := by
      simp [layerFields, Array.getD_eq_getD_getElem?, hslice]
    rw [hfields, Array.getD_eq_getD_getElem?, List.getElem?_toArray,
      List.getElem?_eq_getElem hlength, Option.getD_some]
  rw [layerFieldAt, Checked.demand_eq hbias, Checked.demand_eq hfelt]
  simp only [bind, Except.bind, Checked.demand_eq hentry]
  rfl

variable [Transcendental α]

def halfStepAt (h : List α) (j qFixed : Matrix α) (g kt : α) (q : Matrix α)
    (rng : Random.Generator) : Except Fault (Matrix α × Random.Generator) :=
  sweepAt (return layerFieldAt h (← layerFieldsAt j qFixed q.rows)) g kt q rng

theorem halfStepAt_eq {h : List α} {j qFixed q : Matrix α} {m : ℕ} (hj : j.rows = h.length)
    (hfixed : qFixed.rows = m) (hm : 0 < m) (hrows : q.rows = m) (hcols : q.cols = h.length)
    (g kt : α) (rng : Random.Generator) :
    halfStepAt h j qFixed g kt q rng = .ok (halfStep h j qFixed m g kt q rng) := by
  refine sweepAt_eq ?_ (finds_layerField hj qFixed m) hm g kt hrows hcols rng
  rw [hrows, layerFieldsAt_eq j hfixed]
  rfl

instance : Storable (bipartiteFamily α) α where
  model := Bipartite.Coefficients.isingAt
  empty := ⟨.empty, .empty⟩
  allocate model m := do
    let q0 ← Matrix.allocate m model.h0.length
    let q1 ← Matrix.allocate m model.h1.length
    return ⟨q0, q1⟩
  start m x q := do
    let q0 ← uniformAt m x.x0 q.q0
    let q1 ← uniformAt m x.x1 q.q1
    return ⟨q0, q1⟩
  random q g := do
    let (q0, g) ← randomAt q.q0 g
    let (q1, g) ← randomAt q.q1 g
    return (⟨q0, q1⟩, g)
  step model g kt q rng := do
    let (q1, rng) ← halfStepAt model.h1 model.j q.q0 g kt q.q1 rng
    let jt ← model.j.transposeAt
    let (q0, rng) ← halfStepAt model.h0 jt q1 g kt q.q0 rng
    return (⟨q0, q1⟩, rng)
  read model d q k := do
    let spins0 ← q.q0.rowAt k
    let spins1 ← q.q1.rowAt k
    let energy ← model.energyAt spins0 spins1
    return ⟨d.sign energy, ⟨.ofSpins spins0, .ofSpins spins1⟩, (signs spins0, signs spins1)⟩

/-- Couplings across the layers, a row of spins per slice for either layer, and room for every
spin of each of the two matrices. -/
def bipartiteLayout (α : Type) [Scalar α] [Transcendental α] : Layout (bipartiteFamily α) where
  Shaped := Bipartite.Ising.IsShaped
  Fits := FitsLayers
  Room model m := m * model.h0.length < Matrix.capacity ∧ m * model.h1.length < Matrix.capacity

theorem faithful_bipartite : Faithful (bipartiteLayout α) where
  model := Bipartite.Coefficients.isingAt_eq
  shaped _ _ d h := Bipartite.isShaped_signed_of_ising h d
  allocate model m := by
    by_cases hroom0 : m * model.h0.length < Matrix.capacity
    · by_cases hroom1 : m * model.h1.length < Matrix.capacity
      · refine Or.inl ⟨⟨.fill m model.h0.length Scalar.zero, .fill m model.h1.length Scalar.zero⟩,
          ?_, ⟨rfl, rfl⟩, rfl, rfl⟩
        simp only [Storable.allocate, Matrix.allocate, if_pos hroom0, if_pos hroom1, bind,
          Except.bind]
        rfl
      · refine Or.inr ⟨?_, fun hroom => hroom1 hroom.2⟩
        simp only [Storable.allocate, Matrix.allocate, if_pos hroom0, if_neg hroom1, bind,
          Except.bind]
    · refine Or.inr ⟨?_, fun hroom => hroom0 hroom.1⟩
      simp only [Storable.allocate, Matrix.allocate, if_neg hroom0, bind, Except.bind]
  start model m x q hq hx := by
    obtain ⟨hsize0, hsize1⟩ := checkStart_bipartite_iff.mp hx
    simp only [Storable.start, uniformAt_eq hq.1.1 (hq.1.2.trans hsize0.symm),
      uniformAt_eq hq.2.1 (hq.2.2.trans hsize1.symm), bind, Except.bind]
    rfl
  random model m q g hq := by
    simp only [Storable.random, randomAt_eq hq.1.1 hq.1.2, randomAt_eq hq.2.1 hq.2.2, bind,
      Except.bind]
    rfl
  step model m g kt q rng hshaped hm hq := by
    have hstep1 := halfStepAt_eq hshaped.1 hq.1.1 hm hq.2.1 hq.2.2 g kt rng
    have hrows : (halfStep model.h1 model.j q.q0 m g kt q.q1 rng).1.rows = m :=
      (rows_sweep _ _ _ _ _).trans hq.2.1
    rcases hmoved : halfStep model.h1 model.j q.q0 m g kt q.q1 rng with ⟨q1, rng₁⟩
    rw [hmoved] at hstep1 hrows
    have hstep0 := halfStepAt_eq (j := model.j.transpose) hshaped.2 hrows hm hq.1.1 hq.1.2 g kt rng₁
    have hstep : Annealable.step model m g kt q rng =
        (⟨(halfStep model.h0 model.j.transpose q1 m g kt q.q0 rng₁).1, q1⟩,
          (halfStep model.h0 model.j.transpose q1 m g kt q.q0 rng₁).2) := by
      show bipartiteStep model m g kt q rng = _
      rw [bipartiteStep, hmoved]
      rfl
    simp only [Storable.step, hstep1, bind, Except.bind, model.j.transposeAt_eq, hstep0, hstep]
    rfl
  read model m d q k _ hq hk := by
    simp only [Storable.read, q.q0.rowAt_eq (hq.1.1 ▸ hk), q.q1.rowAt_eq (hq.2.1 ▸ hk), bind,
      Except.bind, model.energyAt_eq]
    rfl
  steady := steady_fitsLayers

end Qubo.Anneal

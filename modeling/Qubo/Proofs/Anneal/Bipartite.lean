import Mathlib.Tactic
import Qubo.Anneal.Bipartite
import Qubo.Proofs.Anneal.Run
import Qubo.Proofs.Anneal.Sweep
import Qubo.Proofs.Bipartite

/-! Annealing of bipartite problems: every slice has one spin per variable of either layer, and
over exact arithmetic its energy is the energy of the pair of assignments it is read as. -/
namespace Qubo.Anneal
open Session
section
variable {α : Type} [Scalar α] [Transcendental α]

/-- For either layer, one row of spins per slice and one column per variable. -/
def FitsLayers (model : Bipartite.Ising α) (m : ℕ) (q : LayerSpins α) : Prop :=
  (q.q0.rows = m ∧ q.q0.cols = model.h0.length) ∧ q.q1.rows = m ∧ q.q1.cols = model.h1.length

theorem checkStart_bipartite_iff {model : Bipartite.Ising α} {x : BitsPair} :
    Annealable.checkStart (F := bipartiteFamily α) model x = .ok () ↔
      x.x0.size = model.h0.length ∧ x.x1.size = model.h1.length := by
  simp only [Annealable.checkStart]
  split_ifs with h0 h1 <;> simp_all

theorem steady_fitsLayers : Steady (F := bipartiteFamily α) (fun _ => True) FitsLayers where
  start _ _ _ hx _ :=
    ⟨⟨rfl, (checkStart_bipartite_iff.mp hx).1⟩, rfl, (checkStart_bipartite_iff.mp hx).2⟩
  random _ _ _ := ⟨⟨rfl, rfl⟩, rfl, rfl⟩
  step _ _ _ _ _ _ h :=
    ⟨⟨(rows_sweep _ _ _ _ _).trans h.1.1, (cols_sweep _ _ _ _ _).trans h.1.2⟩,
      (rows_sweep _ _ _ _ _).trans h.2.1, (cols_sweep _ _ _ _ _).trans h.2.2⟩

theorem steady_allSpins_bipartite [LawfulSpins α] :
    Steady (F := bipartiteFamily α) (fun x => x.x0.IsBinary ∧ x.x1.IsBinary)
      fun _ _ q => AllSpins q.q0 ∧ AllSpins q.q1 where
  start _ m _ _ hx := ⟨allSpins_uniformSpins m hx.1, allSpins_uniformSpins m hx.2⟩
  random _ _ _ := ⟨allSpins_randomSpins _ _ _, allSpins_randomSpins _ _ _⟩
  step _ _ _ _ _ _ h := ⟨AllSpins.sweep h.1 _ _ _ _, AllSpins.sweep h.2 _ _ _ _⟩

end

section Fields
open Finset
variable {h : List ℚ} {j qFixed q : Matrix ℚ} {m : ℕ}

theorem layerField_rat {p : Proposal ℚ} (hp : p.slice < m) :
    layerField h (layerFields j qFixed m) q p =
      h[p.site]?.getD 0 + (j.mulVec (qFixed.row p.slice))[p.site]?.getD 0 := by
  simp [layerField, layerFields, hp]

/-- The spins of a slice of the moving layer, each times the field that it feels. -/
theorem sum_mul_layerField (hrows : q.rows = m) (hcols : q.cols = h.length) {k : ℕ} (hk : k < m)
    (chance : ℚ) :
    ∑ i ∈ range h.length, q.entry k i * layerField h (layerFields j qFixed m) q ⟨i, k, chance⟩ =
      Scalar.dot h (q.row k) + Scalar.dot (q.row k) (j.mulVec (qFixed.row k)) := by
  have hslice : k < q.rows := hrows.symm ▸ hk
  have hlength : (q.row k).length = h.length := (q.length_row hslice).trans hcols
  rw [Scalar.dot_rat _ le_rfl, Scalar.dot_rat _ hlength.le, ← sum_add_distrib]
  refine sum_congr rfl fun i hi => ?_
  rw [layerField_rat hk, q.getElem?_row hslice (hcols.symm ▸ mem_range.mp hi), Option.getD_some]
  ring

end Fields

/-- What is read from a slice whose spins are of either sign is a pair of assignments with its
energy, in the sign of the caller. -/
theorem energy_bipartiteRead {p : Bipartite.Coefficients ℚ} {model : Bipartite.Ising ℚ}
    (h : p.ising = .ok model) (d : Direction) {q : LayerSpins ℚ} {m k : ℕ}
    (hq : FitsLayers (model.signed d) m q) (hspins0 : AllSpins q.q0) (hspins1 : AllSpins q.q1)
    (hk : k < m) : p.energy (bipartiteRead (model.signed d) d q k).solution =
      .ok (bipartiteRead (model.signed d) d q k).energy := by
  obtain ⟨hcheck, -⟩ := Bipartite.Coefficients.ising_eq_ok_iff.mp h
  obtain ⟨hh0, hh1⟩ := Bipartite.Coefficients.length_h_ising h
  have hlength0 : (q.q0.row k).length = p.b0.length := by
    rw [Matrix.length_row q.q0 (hq.1.1 ▸ hk), hq.1.2, Bipartite.Ising.length_h0_signed, hh0]
  have hlength1 : (q.q1.row k).length = p.b1.length := by
    rw [Matrix.length_row q.q1 (hq.2.1 ▸ hk), hq.2.2, Bipartite.Ising.length_h1_signed, hh1]
  refine (Bipartite.Coefficients.energy_eq_ok_iff hcheck).mpr
    ⟨(Bits.size_ofSpins _).trans hlength0, (Bits.size_ofSpins _).trans hlength1, ?_⟩
  change d.sign ((model.signed d).energy (q.q0.row k) (q.q1.row k)) = _
  rw [model.energy_signed, Direction.sign_sign]
  exact Bipartite.Coefficients.energy_ising h hlength0 hlength1
    (fun v hv => isSpin_rat.mp (hspins0.row k v hv))
    (fun v hv => isSpin_rat.mp (hspins1.row k v hv))

/-- The readings of a session whose spins fit its problem. -/
theorem energy_readings_bipartite {inForce : Option (Bipartite.Coefficients ℚ × Direction)}
    [Transcendental ℚ] {s s' : BipartiteSession ℚ}
    (hfollows : Follows (F := bipartiteFamily ℚ) inForce s)
    (hsound : Sound (fun model m (q : LayerSpins ℚ) =>
      FitsLayers model m q ∧ AllSpins q.q0 ∧ AllSpins q.q1) s)
    (h : s.finAnneal = .ok s') : ∃ p d, inForce = some (p, d) ∧ s'.direction = d ∧
      s'.readings ≠ [] ∧ ∀ r ∈ s'.readings,
        BitsPair.Assigns p.b0.length p.b1.length r.solution ∧
          p.energy r.solution = .ok r.energy := by
  obtain ⟨p, d, model, m, q, hl, hmodel, hd, -, hpos, ⟨hfit, hspins0, hspins1⟩, hreadings⟩ :=
    finAnneal_shows hsound hfollows h
  refine ⟨p, d, hl, hd, by simpa [hreadings] using hpos.ne', fun r hr => ?_⟩
  rw [hreadings] at hr
  obtain ⟨k, hk, rfl⟩ := List.mem_map.mp hr
  have henergy := energy_bipartiteRead hmodel d hfit hspins0 hspins1 (List.mem_range.mp hk)
  have hp := (Bipartite.Coefficients.ising_eq_ok_iff.mp hmodel).1
  obtain ⟨hsize0, hsize1, -⟩ := (Bipartite.Coefficients.energy_eq_ok_iff hp).mp henergy
  exact ⟨⟨⟨Bits.isBinary_ofSpins _, hsize0⟩, Bits.isBinary_ofSpins _, hsize1⟩, henergy⟩

end Qubo.Anneal

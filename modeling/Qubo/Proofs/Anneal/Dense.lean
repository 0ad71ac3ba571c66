import Mathlib.Tactic
import Qubo.Anneal.Dense
import Qubo.Proofs.Anneal.Run
import Qubo.Proofs.Anneal.Sweep
import Qubo.Proofs.Dense

/-! Annealing of dense problems: every slice has one spin per variable, and over exact arithmetic
its energy is the energy of the assignment that it is read as. -/
namespace Qubo.Anneal
open Session
section
variable {α : Type} [Scalar α] [Transcendental α]

/-- One row of spins per slice and one column per variable. -/
def FitsDense (model : Dense.Ising α) (m : ℕ) (q : Matrix α) : Prop :=
  q.rows = m ∧ q.cols = model.size

theorem checkStart_dense_iff {model : Dense.Ising α} {x : Bits} :
    Annealable.checkStart (F := denseFamily α) model x = .ok () ↔ x.size = model.size := by
  simp [Annealable.checkStart]

theorem steady_fitsDense : Steady (F := denseFamily α) (fun _ => True) FitsDense where
  start _ _ _ hx _ := ⟨rfl, checkStart_dense_iff.mp hx⟩
  random _ _ _ := ⟨rfl, rfl⟩
  step _ _ _ _ _ _ h :=
    ⟨(rows_sweep _ _ _ _ _).trans h.1, (cols_sweep _ _ _ _ _).trans h.2⟩

theorem steady_allSpins_dense [LawfulSpins α] :
    Steady (F := denseFamily α) Bits.IsBinary fun _ _ q => AllSpins q where
  start _ m _ _ hx := allSpins_uniformSpins m hx
  random _ _ _ := allSpins_randomSpins _ _ _
  step _ _ _ _ _ _ h := AllSpins.sweep h _ _ _ _

end

/-- What is read from a slice whose spins are of either sign is an assignment with its energy, in
the sign of the caller. -/
theorem energy_denseRead {w : Matrix ℚ} {model : Dense.Ising ℚ} (h : Dense.ising w = .ok model)
    (hw : w.IsMirrored) (d : Direction) {q : Matrix ℚ} {m k : ℕ}
    (hq : FitsDense (model.signed d) m q) (hspins : AllSpins q) (hk : k < m) :
    Dense.energy w (denseRead (model.signed d) d q k).solution =
      .ok (denseRead (model.signed d) d q k).energy := by
  obtain ⟨hcheck, -⟩ := Dense.ising_eq_ok_iff.mp h
  have hlength : (q.row k).length = w.rows := by
    rw [Matrix.length_row q (hq.1 ▸ hk), hq.2, Dense.Ising.size_signed, Dense.size_ising h]
  refine (Dense.energy_eq_ok_iff hcheck).mpr ⟨(Bits.size_ofSpins _).trans hlength, ?_⟩
  change d.sign ((model.signed d).energy (q.row k)) = _
  rw [model.energy_signed, Direction.sign_sign]
  exact Dense.energy_ising_of_isMirrored h hw hlength
    fun v hv => isSpin_rat.mp (hspins.row k v hv)

/-- The readings of a session whose spins fit its problem, which has equal mirrored entries. -/
theorem energy_readings_dense {inForce : Option (Matrix ℚ × Direction)} [Transcendental ℚ]
    {s s' : DenseSession ℚ} (hfollows : Follows (F := denseFamily ℚ) inForce s)
    (hsound : Sound (fun model m q => FitsDense model m q ∧ AllSpins q) s)
    (h : s.finAnneal = .ok s') : ∃ w d, inForce = some (w, d) ∧ s'.direction = d ∧
      s'.readings ≠ [] ∧ (w.IsMirrored → ∀ r ∈ s'.readings,
        Bits.Assigns w.rows r.solution ∧ Dense.energy w r.solution = .ok r.energy) := by
  obtain ⟨w, d, model, m, q, hl, hmodel, hd, -, hpos, ⟨hfit, hspins⟩, hreadings⟩ :=
    finAnneal_shows hsound hfollows h
  refine ⟨w, d, hl, hd, by simpa [hreadings] using hpos.ne', fun hw r hr => ?_⟩
  rw [hreadings] at hr
  obtain ⟨k, hk, rfl⟩ := List.mem_map.mp hr
  have henergy := energy_denseRead hmodel hw d hfit hspins (List.mem_range.mp hk)
  have hsize := ((Dense.energy_eq_ok_iff (Dense.check_of_isMirrored hw)).mp henergy).1
  exact ⟨⟨Bits.isBinary_ofSpins _, hsize⟩, henergy⟩

end Qubo.Anneal

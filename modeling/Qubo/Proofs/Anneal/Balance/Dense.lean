import Mathlib.Tactic
import Qubo.Proofs.Anneal.Balance.Moves
import Qubo.Proofs.Anneal.Balance.Ring
import Qubo.Proofs.Anneal.Dense
import Qubo.Proofs.Dense.SpinForm

/-! Annealing of dense problems keeps its books: the cost that decides a trial is the change of an
energy of all slices, and over any number of sweeps the costs paid are the change of that energy. -/
namespace Qubo
open Finset

namespace Dense.Ising

/-- Any two variables are coupled alike in both directions, and none to itself. -/
def IsCoupled (m : Ising ℚ) : Prop :=
  m.j.rows = m.size ∧ m.j.IsMirrored ∧ ∀ i < m.size, m.j.entry i i = 0

theorem isCoupled_ising {w : Matrix ℚ} {model : Ising ℚ} (h : ising w = .ok model)
    (hw : w.IsMirrored) : model.IsCoupled := by
  obtain ⟨hrows, hcols, hentry⟩ := j_ising h
  obtain ⟨hsq, hmirrored⟩ := hw
  have hsize := size_ising h
  refine ⟨hrows.trans hsize.symm, ⟨by rw [hrows, hcols, hsq], fun r hr c hc => ?_⟩, fun i hi => ?_⟩
  · rw [hrows] at hr hc
    rw [hentry r hr c (hsq ▸ hc), hentry c hc r (hsq ▸ hr), hmirrored r hr c hc]
    simp only [eq_comm]
  · rw [hsize] at hi
    rw [hentry i hi i (hsq ▸ hi), if_pos rfl]

theorem IsCoupled.signed {m : Ising ℚ} (h : m.IsCoupled) (d : Direction) :
    (m.signed d).IsCoupled := by
  obtain ⟨hrows, ⟨hsq, hmirrored⟩, hdiagonal⟩ := h
  have hentry (r : ℕ) (hr : r < m.j.rows) (c : ℕ) (hc : c < m.j.rows) :
      (m.signed d).j.entry r c = d.sign (m.j.entry r c) := m.j.entry_sign d hr (hsq ▸ hc)
  have hrows' : (m.signed d).j.rows = m.j.rows := m.j.rows_sign d
  refine ⟨by rw [hrows', hrows, size_signed], ⟨?_, fun r hr c hc => ?_⟩, fun i hi => ?_⟩
  · exact hrows'.trans (hsq.trans (m.j.cols_sign d).symm)
  · rw [hrows'] at hr hc
    rw [hentry r hr c hc, hentry c hc r hr, hmirrored r hr c hc]
  · rw [size_signed] at hi
    rw [hentry i (hrows ▸ hi) i (hrows ▸ hi), hdiagonal i hi]
    cases d <;> simp [Direction.sign]

/-- A variable takes part in the energy through what it feels. -/
theorem IsCoupled.energy_set_sub {m : Ising ℚ} (h : m.IsCoupled) {q : List ℚ}
    (hq : q.length = m.size) {i : ℕ} (hi : i < m.size) (x : ℚ) :
    m.energy (q.set i x) - m.energy q =
      (x - q[i]?.getD 0) * (m.h[i]?.getD 0 + 2 * Scalar.dot (m.j.row i) q) := by
  obtain ⟨hrows, ⟨hsq, hmirrored⟩, hdiagonal⟩ := h
  have hset (k : ℕ) (hne : k ≠ i) : (q.set i x)[k]?.getD 0 = q[k]?.getD 0 := by
    rw [List.getElem?_set_ne hne.symm]
  have hself : (q.set i x)[i]?.getD 0 = x := by
    rw [List.getElem?_set_self (hq ▸ hi), Option.getD_some]
  have hfield : Scalar.dot (m.j.row i) q =
      ∑ c ∈ range m.size, m.j.entry i c * q[c]?.getD 0 := by
    rw [← hrows] at hi
    rw [Scalar.dot_rat q (m.j.length_row hi).le, ← hrows, hsq]
    exact sum_congr rfl fun c hc => by rw [m.j.getElem?_row hi (mem_range.mp hc), Option.getD_some]
  -- The couplings of the variable count once in its row and once in its column.
  have hrow : ∑ r ∈ range m.size, ∑ c ∈ range m.size,
        (q.set i x)[r]?.getD 0 * m.j.entry r c * (q.set i x)[c]?.getD 0 -
      ∑ r ∈ range m.size, ∑ c ∈ range m.size,
        q[r]?.getD 0 * m.j.entry r c * (q.set i x)[c]?.getD 0 =
      (x - q[i]?.getD 0) * Scalar.dot (m.j.row i) q := by
    rw [sum_sub_sum_of_eq hi fun r _ hne => by rw [hset r hne], hself, ← sum_sub_distrib,
      hfield, mul_sum]
    refine sum_congr rfl fun c _ => ?_
    by_cases hne : c = i
    · rw [hne, hdiagonal i hi]
      ring
    · rw [hset c hne]
      ring
  have hcolumn : ∑ r ∈ range m.size, ∑ c ∈ range m.size,
        q[r]?.getD 0 * m.j.entry r c * (q.set i x)[c]?.getD 0 -
      ∑ r ∈ range m.size, ∑ c ∈ range m.size, q[r]?.getD 0 * m.j.entry r c * q[c]?.getD 0 =
      (x - q[i]?.getD 0) * Scalar.dot (m.j.row i) q := by
    rw [← sum_sub_distrib, hfield, mul_sum]
    refine sum_congr rfl fun r hr => ?_
    have hr := mem_range.mp hr
    rw [sum_sub_sum_of_eq hi fun c _ hne => by rw [hset c hne], hself,
      hmirrored i (hrows ▸ hi) r (hrows ▸ hr)]
    ring
  have hbias := Scalar.dot_set_sub m.h (hq ▸ hi) x
  rw [energy, energy, Scalar.dot_comm m.h, Scalar.dot_comm m.h,
    m.j.dot_mulVec_rat, m.j.dot_mulVec_rat, ← hsq, hrows]
  linear_combination hbias + hrow + hcolumn

end Dense.Ising

namespace Anneal

/-- The energy of all slices of a dense problem. -/
def denseEnergy (model : Dense.Ising ℚ) (coupling : ℚ) (q : Matrix ℚ) : ℚ :=
  ringEnergy (fun _ => model.energy) coupling q

/-- The trials of one step. -/
def denseMoves {α : Type} [Scalar α] [Transcendental α] (model : Dense.Ising α) (m : ℕ) (g kt : α)
    (q : Matrix α) (rng : Random.Generator) : List (Move (Matrix α) (Proposal α) α) :=
  sweepMoves g kt (denseField model) q (proposals model.size m rng).1

variable {model : Dense.Ising ℚ} {q : Matrix ℚ} {m : ℕ}

/-- The cost of a trial is the change of the energy of all slices. -/
theorem flipCost_dense (h : model.IsCoupled) (hq : FitsDense model m q) {p : Proposal ℚ}
    (hp : p.Within model.size m) (coupling : ℚ) :
    flipCost coupling q p (denseField model q p) =
      denseEnergy model coupling (flip q p) - denseEnergy model coupling q := by
  have hslice : p.slice < q.rows := hq.1.symm ▸ hp.2
  have hsite : p.site < q.cols := hq.2.symm ▸ hp.1
  refine flipCost_eq_sub coupling hslice hsite ?_
  rw [h.energy_set_sub ((q.length_row hslice).trans hq.2) hp.1, q.getElem?_row hslice hsite,
    Option.getD_some, denseField, Scalar.two_rat, Scalar.zero_rat, List.getD_eq_getElem?_getD]
  ring

theorem balanced_dense_sweep [Transcendental ℚ] (h : model.IsCoupled) (hq : FitsDense model m q)
    {ps : List (Proposal ℚ)} (hps : ∀ p ∈ ps, p.Within model.size m) (g kt : ℚ) :
    Balanced flip (denseEnergy model (trotterCoupling g kt m)) q
      (sweepMoves g kt (denseField model) q ps) (sweep g kt (denseField model) q ps) := by
  refine balanced_sweep fun q₀ hrows hcols p hp => ?_
  rw [hq.1]
  exact flipCost_dense h ⟨hrows.trans hq.1, hcols.trans hq.2⟩ (hps p hp) _

/-- For equal mirrored weights, the cost of every trial is the change that its flip makes in the
energy of all slices, whatever is proposed in a sweep; so it is in every trial of any number of
steps that an annealer takes, and there the costs paid add up to the change from the first spins to
the last. -/
theorem dense_steps_balanced [Transcendental ℚ] {w : Matrix ℚ} (hw : w.IsMirrored) (d : Direction) :
    ∃ model, Dense.ising w = .ok model ∧ ∀ (m : ℕ) (g kt : ℚ) (q : Matrix ℚ),
      FitsDense (model.signed d) m q →
      (∀ ps : List (Proposal ℚ), (∀ p ∈ ps, p.Within w.rows m) →
        Balanced flip (denseEnergy (model.signed d) (trotterCoupling g kt m)) q
          (sweepMoves g kt (denseField (model.signed d)) q ps)
          (sweep g kt (denseField (model.signed d)) q ps)) ∧
      ∀ (s : DenseSession ℚ) (rng : Random.Generator) (k : ℕ),
        s.Running (model.signed d) m q rng → ∃ s' q' rng',
          (List.replicate k g).foldlM (fun s g => s.annealOneStep g kt) s = .ok s' ∧
          s'.Running (model.signed d) m q' rng' ∧ FitsDense (model.signed d) m q' ∧
          let ts := movesOver (denseStep (model.signed d) m g kt)
            (denseMoves (model.signed d) m g kt) k q rng
          ts.length = k * (w.rows * m) ∧ (∀ t ∈ ts, t.proposal.Within w.rows m) ∧
          Balanced flip (denseEnergy (model.signed d) (trotterCoupling g kt m)) q ts q' := by
  obtain ⟨model, hmodel⟩ : ∃ model, Dense.ising w = .ok model :=
    ⟨_, Dense.ising_eq_ok_iff.mpr ⟨Dense.check_of_isMirrored hw, rfl⟩⟩
  have hcoupled := (Dense.Ising.isCoupled_ising hmodel hw).signed d
  have hsize : (model.signed d).size = w.rows :=
    (model.size_signed d).trans (Dense.size_ising hmodel)
  refine ⟨model, hmodel, fun m g kt q hq => ⟨fun ps hps => ?_, fun s rng k hs => ?_⟩⟩
  · exact balanced_dense_sweep hcoupled hq (hsize ▸ hps) g kt
  · have hstep (q : Matrix ℚ) (rng : Random.Generator) (hq : FitsDense (model.signed d) m q) :
        FitsDense (model.signed d) m (denseStep (model.signed d) m g kt q rng).1 ∧
        Balanced flip (denseEnergy (model.signed d) (trotterCoupling g kt m)) q
          (denseMoves (model.signed d) m g kt q rng)
          (denseStep (model.signed d) m g kt q rng).1 :=
      ⟨steady_fitsDense.step _ m g kt q rng hq,
        balanced_dense_sweep hcoupled hq (proposals_within _ m rng) g kt⟩
    obtain ⟨s', q', rng', hrun, hs', hq', hbalanced⟩ := hs.balanced_steps hstep hq k
    refine ⟨s', q', rng', hrun, hs', hq', ?_, ?_, hbalanced⟩
    · refine length_movesOver (fun q rng => ?_) k q rng
      rw [denseMoves, length_sweepMoves, proposals, Random.Draw.length_many, hsize]
    · refine forall_mem_movesOver (fun q rng t ht => ?_) k q rng
      exact hsize ▸ proposals_within _ m rng _ (proposal_mem_of_mem_sweepMoves _ _ _ ht)

/-- Two slices, each of which is the other's only neighbour, from random spins. -/
theorem dense_steps_balanced_of_pair :
    letI : Transcendental ℚ := ⟨id, id, id, id⟩
    let w : Matrix ℚ := .generate 2 2 fun r c => if r = c then 3 else -2
    let requests : List (Request (denseFamily ℚ) ℚ) :=
      [.setProblem w .maximize, .setTrotters 2, .initAnneal]
    let s : DenseSession ℚ := (Session.new (.ofSeed 0)).run requests
    let p : Proposal ℚ := ⟨1, 0, 1 / 2⟩
    w.IsMirrored ∧ p.Within w.rows 2 ∧ ∃ model q rng, Dense.ising w = .ok model ∧
      FitsDense (model.signed .maximize) 2 q ∧ s.Running (model.signed .maximize) 2 q rng ∧
      Balanced flip (denseEnergy (model.signed .maximize) (trotterCoupling 5 2 2)) q
        (sweepMoves 5 2 (denseField (model.signed .maximize)) q [p])
        (sweep 5 2 (denseField (model.signed .maximize)) q [p]) ∧
      ∃ s' q' rng', (List.replicate 3 5).foldlM (fun s g => s.annealOneStep g 2) s = .ok s' ∧
        s'.Running (model.signed .maximize) 2 q' rng' ∧
        Balanced flip (denseEnergy (model.signed .maximize) (trotterCoupling 5 2 2)) q
          (movesOver (denseStep (model.signed .maximize) 2 5 2)
            (denseMoves (model.signed .maximize) 2 5 2) 3 q rng) q' := by
  intro w requests s p
  let _ : Transcendental ℚ := ⟨id, id, id, id⟩
  have hw : w.IsMirrored := by decide +kernel
  have hp : p.Within w.rows 2 := ⟨by decide, by decide⟩
  obtain ⟨model, hmodel, hbalanced⟩ := dense_steps_balanced hw .maximize
  obtain ⟨hsound, hfollows⟩ := Session.run_new steady_fitsDense (.ofSeed 0) requests
    fun _ _ => trivial
  have hgiven : Annealable.model (F := denseFamily ℚ) w = .ok model := hmodel
  have hloaded : loaded requests = some (w, .maximize) := by
    simp [requests, loaded, Request.load, hgiven]
  rw [hloaded] at hfollows
  obtain ⟨m, q, rng, -, hq, hs⟩ :=
    hsound.exists_running hfollows (by decide +kernel) hgiven
  have htrotters : some 2 = s.trotters := by decide +kernel
  obtain rfl : 2 = m := Option.some.inj (htrotters.trans hs.trotters)
  obtain ⟨hsweep, hsteps⟩ := hbalanced 2 5 2 q hq
  obtain ⟨s', q', rng', hrun, hs', -, -, -, htotal⟩ := hsteps s rng 3 hs
  refine ⟨hw, hp, model, q, rng, hmodel, hq, hs, hsweep [p] ?_, s', q', rng', hrun, hs', htotal⟩
  rintro p' hp'
  exact List.mem_singleton.mp hp' ▸ hp

end Anneal

end Qubo

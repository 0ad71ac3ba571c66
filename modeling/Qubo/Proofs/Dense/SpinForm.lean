import Mathlib.Tactic
import Qubo.Proofs.Dense
import Qubo.Proofs.Negation

/-! The spin form of a dense problem against its energy. Where mirrored weights differ, so do the
two; by how much the tolerance of the check bounds, pair by pair. -/
namespace Qubo.Dense
open Finset

/-- A sum of differences of spins counts each pair twice, with opposite signs. -/
private theorem sum_mul_sub_eq (n : ℕ) (w : ℕ → ℕ → ℚ) (q : ℕ → ℚ) :
    ∑ r ∈ range n, ∑ c ∈ range n, w r c * (q r - q c) =
      1 / 2 * ∑ r ∈ range n, ∑ c ∈ range n, (w r c - w c r) * (q r - q c) := by
  have hswap : ∑ r ∈ range n, ∑ c ∈ range n, w c r * (q r - q c) =
      -∑ r ∈ range n, ∑ c ∈ range n, w r c * (q r - q c) := by
    rw [sum_comm]
    simp only [← sum_neg_distrib]
    exact sum_congr rfl fun r _ => sum_congr rfl fun c _ => by ring
  simp only [sub_mul _ _ (q _ - q _), sum_sub_distrib]
  linear_combination 1 / 2 * hswap

private theorem abs_sum_mul_sub_le {n : ℕ} {w : ℕ → ℕ → ℚ} {q : ℕ → ℚ} {ε : ℚ}
    (hw : ∀ r < n, ∀ c < n, |w r c - w c r| ≤ ε) (hq : ∀ i < n, |q i| ≤ 1) :
    |∑ r ∈ range n, ∑ c ∈ range n, w r c * (q r - q c)| ≤ n * (n - 1) * ε := by
  have hterm (r : ℕ) (hr : r < n) (c : ℕ) (hc : c < n) :
      |(w r c - w c r) * (q r - q c)| ≤ ε * 2 := by
    have hspins : |q r - q c| ≤ 2 :=
      calc |q r - q c| ≤ |q r| + |q c| := abs_sub _ _
        _ ≤ 1 + 1 := add_le_add (hq r hr) (hq c hc)
        _ = 2 := by norm_num
    rw [abs_mul]
    exact mul_le_mul (hw r hr c hc) hspins (abs_nonneg _) ((abs_nonneg _).trans (hw r hr c hc))
  -- A variable does not differ from itself, so each row has `n - 1` terms.
  have hrow (r : ℕ) (hr : r < n) :
      |∑ c ∈ range n, (w r c - w c r) * (q r - q c)| ≤ (n - 1) * (ε * 2) :=
    calc |∑ c ∈ range n, (w r c - w c r) * (q r - q c)|
        = |∑ c ∈ (range n).erase r, (w r c - w c r) * (q r - q c)| := by
          rw [sum_erase _ (by ring)]
      _ ≤ ∑ c ∈ (range n).erase r, |(w r c - w c r) * (q r - q c)| := abs_sum_le_sum_abs _ _
      _ ≤ ((range n).erase r).card • (ε * 2) := sum_le_card_nsmul _ _ _ fun c hc =>
          hterm r hr c (mem_range.mp (mem_of_mem_erase hc))
      _ = (n - 1) * (ε * 2) := by
          rw [card_erase_of_mem (mem_range.mpr hr), card_range, nsmul_eq_mul,
            Nat.cast_pred (Nat.zero_lt_of_lt hr)]
  calc |∑ r ∈ range n, ∑ c ∈ range n, w r c * (q r - q c)|
      = 1 / 2 * |∑ r ∈ range n, ∑ c ∈ range n, (w r c - w c r) * (q r - q c)| := by
        rw [sum_mul_sub_eq, abs_mul, abs_of_pos (by norm_num)]
    _ ≤ 1 / 2 * ∑ r ∈ range n, |∑ c ∈ range n, (w r c - w c r) * (q r - q c)| := by
        gcongr
        exact abs_sum_le_sum_abs _ _
    _ ≤ 1 / 2 * ((range n).card • ((n - 1) * (ε * 2))) := by
        gcongr
        exact sum_le_card_nsmul _ _ _ fun r hr => hrow r (mem_range.mp hr)
    _ = n * (n - 1) * ε := by
        rw [card_range, nsmul_eq_mul]
        ring

/-- On spins of either sign the two forms differ by half the tolerance for each pair. -/
theorem abs_energy_ising_sub_le {w : Matrix ℚ} {model : Ising ℚ} (h : ising w = .ok model)
    {q : List ℚ} (hq : q.length = w.rows) (hspin : ∀ s ∈ q, s = 1 ∨ s = -1) :
    |model.energy q - quadratic w (Bits.ofSpins q).reals| ≤
      w.rows * (w.rows - 1) / 4 * Scalar.tolerance := by
  obtain ⟨hw, -⟩ := ising_eq_ok_iff.mp h
  have hbound (i : ℕ) (hi : i < w.rows) : |q[i]?.getD 0| ≤ 1 := by
    rw [List.getElem?_eq_getElem (hq ▸ hi), Option.getD_some]
    rcases hspin q[i] (List.getElem_mem (hq ▸ hi)) with he | he <;> simp [he]
  have hsum := abs_sum_mul_sub_le (check_eq_ok_iff.mp hw).2 hbound
  rw [energy_ising h hq hspin, add_sub_cancel_left, abs_mul, abs_of_pos (by norm_num)]
  linarith

namespace Ising

theorem signed_signed (m : Ising ℚ) (d : Direction) : (m.signed d).signed d = m := by
  simp only [signed, List.map_map, Direction.sign_sign]
  congr
  exact (List.map_congr_left fun x _ => d.sign_sign x).trans (List.map_id _)

theorem energyOf_eq_ok {m : Ising ℚ} {q : List ℚ} (hq : q.length = m.size) :
    m.energyOf q = .ok (m.energy q) := if_neg (not_not.mpr hq)

end Ising

/-- The couplings of the spin form. -/
theorem j_ising {w : Matrix ℚ} {model : Ising ℚ} (h : ising w = .ok model) :
    model.j.rows = w.rows ∧ model.j.cols = w.cols ∧ ∀ r < w.rows, ∀ c < w.cols,
      model.j.entry r c = if r = c then 0 else w.entry r c * (1 / 4) := by
  obtain ⟨-, rfl⟩ := ising_eq_ok_iff.mp h
  refine ⟨rfl, rfl, fun r hr c hc => ?_⟩
  rw [(w.scale Scalar.quarter).entry_setDiagonal Scalar.zero hr hc, Matrix.scale,
    w.entry_map _ hr hc, Scalar.zero_rat, Scalar.quarter_rat]

/-- Every accepted matrix has a spin form, without couplings of a variable to itself. On every
assignment it has the energy of the matrix, up to half the tolerance for each pair of variables,
and exactly so if mirrored weights are equal. With the sign for maximising it has the opposite
energy on any vector, and a sign that is applied twice is undone. -/
theorem spin_form_agrees {w : Matrix ℚ} (hw : check w = .ok ()) :
    ∃ model, ising w = .ok model ∧
      (∀ x : Bits, x.Assigns w.rows → ∃ e e', energy w x = .ok e ∧
        model.energyOf x.spins = .ok e' ∧ |e' - e| ≤ w.rows * (w.rows - 1) / 4 * (1 / 10 ^ 9) ∧
        (w.IsMirrored → e' = e)) ∧
      (model.j.shape = (w.rows, w.rows) ∧ ∀ i < w.rows, model.j.entry i i = 0) ∧
      (∀ q : List ℚ, q.length = w.rows → (model.signed .maximize).energy q = -model.energy q) ∧
      ∀ d, (model.signed d).signed d = model := by
  obtain ⟨model, hmodel⟩ : ∃ model, ising w = .ok model :=
    ⟨_, ising_eq_ok_iff.mpr ⟨hw, rfl⟩⟩
  obtain ⟨hrows, hcols, hentry⟩ := j_ising hmodel
  have hsq := isSquare_of_check hw
  refine ⟨model, hmodel, ?_, ⟨?_, ?_⟩, ?_, fun d => model.signed_signed d⟩
  · rintro x ⟨hbinary, hsize⟩
    have hlength : (x.spins : List ℚ).length = w.rows := (Bits.length_spins x).trans hsize
    refine ⟨quadratic w x.reals, model.energy x.spins, (energy_eq_ok_iff hw).mpr ⟨hsize, rfl⟩,
      Ising.energyOf_eq_ok (hlength.trans (size_ising hmodel).symm), ?_, fun hmirrored => ?_⟩
    · have hle := abs_energy_ising_sub_le hmodel hlength hbinary.spins_eq_or
      rw [hbinary.ofSpins_spins] at hle
      exact hle.trans_eq (by norm_num [Scalar.tolerance, Scalar.ratio])
    · have heq := energy_ising_of_isMirrored hmodel hmirrored hlength hbinary.spins_eq_or
      rwa [hbinary.ofSpins_spins] at heq
  · rw [Matrix.shape, hrows, hcols, hsq]
  · intro i hi
    rw [hentry i hi i (hsq ▸ hi), if_pos rfl]
  · intro q hq
    exact model.energy_signed .maximize q

/-- Two weights that differ by the whole tolerance. -/
theorem spin_form_agrees_of_askew :
    let w : Matrix ℚ := .generate 2 2 fun r c => if r < c then 1 / 10 ^ 9 else 0
    check w = .ok () ∧ Bits.Assigns w.rows ⟨[1, 0]⟩ ∧
    ∃ model, ising w = .ok model ∧
      (∃ e e', energy w ⟨[1, 0]⟩ = .ok e ∧ model.energyOf (Bits.spins ⟨[1, 0]⟩) = .ok e' ∧
        |e' - e| ≤ (2 : ℕ) * ((2 : ℕ) - 1) / 4 * (1 / 10 ^ 9)) ∧
      (model.j.shape = (2, 2) ∧ ∀ i < 2, model.j.entry i i = 0) ∧
      (model.signed .maximize).energy [3, 5] = -model.energy [3, 5] ∧
      ∀ d, (model.signed d).signed d = model := by
  intro w
  have hw : check w = .ok () := by decide +kernel
  have hx : Bits.Assigns w.rows ⟨[1, 0]⟩ := by decide +kernel
  obtain ⟨model, hmodel, henergy, hj, hsign, hsigned⟩ := spin_form_agrees hw
  obtain ⟨e, e', he, he', hle, -⟩ := henergy _ hx
  exact ⟨hw, hx, model, hmodel, ⟨e, e', he, he', hle⟩, hj, hsign [3, 5] rfl, hsigned⟩

end Qubo.Dense

import Mathlib.Tactic
import Mathlib.Algebra.BigOperators.Intervals
import Qubo.Dense
import Qubo.Proofs.Bits
import Qubo.Proofs.Matrix

/-! Dense problems over exact arithmetic: the energy as a double sum, which matrices are
accepted, and what the spin form computes on spins of either sign. -/
namespace Qubo.Dense
open Finset
section
variable {α : Type} [Scalar α]

theorem isSquare_of_check {w : Matrix α} (hw : check w = .ok ()) : w.rows = w.cols := by
  unfold check at hw
  split at hw
  · simp at hw
  next h => simpa [Matrix.isSquare] using h

/-- The spin form of a matrix. -/
theorem ising_eq_ok_iff {w : Matrix α} {model : Ising α} :
    ising w = .ok model ↔ check w = .ok () ∧ model = {
      h := w.rowSums.map (Scalar.half * ·)
      j := (w.scale Scalar.quarter).setDiagonal Scalar.zero
      c := Scalar.quarter * w.sum + Scalar.quarter * w.trace } := by
  unfold ising
  cases hw : check w with
  | error e => simp [bind, Except.bind]
  | ok u => simp [bind, Except.bind, pure, Except.pure, eq_comm]

@[simp] theorem Ising.size_signed (m : Ising α) (d : Direction) : (m.signed d).size = m.size := by
  simp [Ising.size, Ising.signed]

theorem size_ising {w : Matrix α} {model : Ising α} (h : ising w = .ok model) :
    model.size = w.rows := by
  obtain ⟨-, rfl⟩ := ising_eq_ok_iff.mp h
  simp [Ising.size]

end

/-- What is accepted is square, with mirrored entries that the tolerance takes for equal. -/
theorem check_eq_ok_iff {w : Matrix ℚ} : check w = .ok () ↔ w.rows = w.cols ∧
    ∀ r < w.rows, ∀ c < w.rows, |w.entry r c - w.entry c r| ≤ Scalar.tolerance := by
  have hsymmetric (hsq : w.rows = w.cols) : w.isSymmetric Scalar.tolerance = true ↔
      ∀ r < w.rows, ∀ c < w.rows, |w.entry r c - w.entry c r| ≤ Scalar.tolerance := by
    simp only [Matrix.isSymmetric, Matrix.isSquare, hsq, beq_self_eq_true, Bool.true_and,
      List.all_eq_true, List.mem_range, List.mem_range'_1, decide_eq_true_eq, Scalar.magnitude_rat]
    constructor
    · intro h r hr c hc
      rcases lt_trichotomy r c with hrc | rfl | hcr
      · exact h r hr c ⟨hrc, by omega⟩
      · rw [sub_self, abs_zero]
        exact Scalar.tolerance_pos.le
      · rw [abs_sub_comm]
        exact h c hc r ⟨hcr, by omega⟩
    · intro h r hr c hc
      exact h r hr c (by omega)
  constructor
  · intro hw
    have hsq := isSquare_of_check hw
    refine ⟨hsq, (hsymmetric hsq).mp ?_⟩
    by_contra hs
    simp [check, Matrix.isSquare, hsq, hs] at hw
  · rintro ⟨hsq, h⟩
    simp [check, Matrix.isSquare, hsq, (hsymmetric hsq).mpr h]

/-- Equal mirrored entries are within every tolerance. -/
theorem check_of_isMirrored {w : Matrix ℚ} (hw : w.IsMirrored) : check w = .ok () := by
  obtain ⟨hsq, hmirrored⟩ := hw
  refine check_eq_ok_iff.mpr ⟨hsq, fun r hr c hc => ?_⟩
  rw [hmirrored r hr c hc, sub_self, abs_zero]
  exact Scalar.tolerance_pos.le

theorem quadratic_rat {w : Matrix ℚ} (hsq : w.rows = w.cols) (x : List ℚ) :
    quadratic w x = ∑ r ∈ range w.rows, ∑ c ∈ range w.rows,
      x[r]?.getD 0 * w.entry r c * x[c]?.getD 0 := by
  rw [quadratic, w.dot_mulVec_rat, ← hsq]

theorem quadratic_sign (d : Direction) (w : Matrix ℚ) (x : List ℚ) :
    quadratic (d.sign w) x = d.sign (quadratic w x) :=
  w.dot_mulVec_sign d x x

theorem energy_eq_ok_iff {α : Type} [Scalar α] {w : Matrix α} (hw : check w = .ok ()) {x : Bits}
    {e : α} :
    energy w x = .ok e ↔ x.size = w.rows ∧ e = quadratic w x.reals := by
  by_cases hx : x.size = w.rows
  · simp [energy, hw, hx, bind, Except.bind, pure, Except.pure, eq_comm]
  · simp [energy, hw, hx, bind, Except.bind, throw, throwThe, MonadExceptOf.throw]

namespace Ising

theorem energy_signed (m : Ising ℚ) (d : Direction) (q : List ℚ) :
    (m.signed d).energy q = d.sign (m.energy q) := by
  rw [energy, energy, Direction.sign_add, Direction.sign_add, ← Direction.dot_map_sign,
    ← m.j.dot_mulVec_sign d q q]
  rfl

end Ising

/-- The energy in spin form differs from the quadratic form of the variables by what mirrored
weights differ in. -/
private theorem spin_form (n : ℕ) (w : ℕ → ℕ → ℚ) (q : ℕ → ℚ) (hq : ∀ i < n, q i * q i = 1) :
    1 / 4 * ∑ r ∈ range n, ∑ c ∈ range n, w r c + 1 / 4 * ∑ r ∈ range n, w r r +
      ∑ r ∈ range n, 1 / 2 * (∑ c ∈ range n, w r c) * q r +
      ∑ r ∈ range n, ∑ c ∈ range n, q r * (if r = c then 0 else w r c * (1 / 4)) * q c =
    ∑ r ∈ range n, ∑ c ∈ range n, (1 + q r) / 2 * w r c * ((1 + q c) / 2) +
      1 / 4 * ∑ r ∈ range n, ∑ c ∈ range n, w r c * (q r - q c) := by
  -- The diagonal that the couplings leave out is paid back by `q r * q r = 1`.
  have hdiag (r : ℕ) (hr : r ∈ range n) :
      ∑ c ∈ range n, q r * (if r = c then 0 else w r c * (1 / 4)) * q c =
        ∑ c ∈ range n, q r * (w r c * (1 / 4)) * q c - 1 / 4 * w r r := by
    have hsplit (c : ℕ) : q r * (if r = c then 0 else w r c * (1 / 4)) * q c =
        q r * (w r c * (1 / 4)) * q c - if r = c then q r * (w r c * (1 / 4)) * q c else 0 := by
      split_ifs <;> ring
    simp only [hsplit, sum_sub_distrib, sum_ite_eq, hr, if_true]
    linear_combination (-(w r r) * (1 / 4)) * hq r (mem_range.mp hr)
  have hcombine : ∑ r ∈ range n, ∑ c ∈ range n, 1 / 4 * w r c +
      ∑ r ∈ range n, ∑ c ∈ range n, 1 / 2 * w r c * q r +
      ∑ r ∈ range n, ∑ c ∈ range n, q r * (w r c * (1 / 4)) * q c =
      ∑ r ∈ range n, ∑ c ∈ range n, (1 + q r) / 2 * w r c * ((1 + q c) / 2) +
        ∑ r ∈ range n, ∑ c ∈ range n, 1 / 4 * (w r c * (q r - q c)) := by
    simp only [← sum_add_distrib]
    refine sum_congr rfl fun r _ => sum_congr rfl fun c _ => ?_
    ring
  rw [sum_congr rfl hdiag]
  simp only [mul_sum, sum_mul, sum_sub_distrib]
  linear_combination hcombine

/-- Half the row sums act on the spins as fields. -/
theorem dot_fields {w : Matrix ℚ} (hsq : w.rows = w.cols) (q : List ℚ) :
    Scalar.dot (w.rowSums.map (Scalar.half * ·)) q =
      ∑ r ∈ range w.rows, 1 / 2 * (∑ c ∈ range w.rows, w.entry r c) * q[r]?.getD 0 := by
  rw [Scalar.dot_rat (n := w.rows) _ (by simp)]
  refine sum_congr rfl fun r hr => ?_
  rw [List.getElem?_map, w.rowSums_rat (mem_range.mp hr), ← hsq, Option.map_some,
    Option.getD_some, Scalar.half_rat]

/-- The couplings are a quarter of the weights off the diagonal. -/
theorem dot_couplings {w : Matrix ℚ} (hsq : w.rows = w.cols) (q : List ℚ) :
    Scalar.dot q (((w.scale Scalar.quarter).setDiagonal Scalar.zero).mulVec q) =
      ∑ r ∈ range w.rows, ∑ c ∈ range w.rows,
        q[r]?.getD 0 * (if r = c then 0 else w.entry r c * (1 / 4)) * q[c]?.getD 0 := by
  rw [((w.scale Scalar.quarter).setDiagonal Scalar.zero).dot_mulVec_rat]
  simp only [Matrix.rows_setDiagonal, Matrix.cols_setDiagonal, Matrix.rows_scale,
    Matrix.cols_scale, ← hsq]
  refine sum_congr rfl fun r hr => sum_congr rfl fun c hc => ?_
  have hr := mem_range.mp hr
  have hc := hsq ▸ mem_range.mp hc
  rw [(w.scale Scalar.quarter).entry_setDiagonal Scalar.zero hr hc, Matrix.scale,
    w.entry_map _ hr hc, Scalar.zero_rat, Scalar.quarter_rat]

/-- The quadratic form of the assignment that spins of either sign are read as. -/
theorem quadratic_ofSpins {w : Matrix ℚ} (hsq : w.rows = w.cols) {q : List ℚ}
    (hq : q.length = w.rows) (hspin : ∀ s ∈ q, s = 1 ∨ s = -1) :
    quadratic w (Bits.ofSpins q).reals = ∑ r ∈ range w.rows, ∑ c ∈ range w.rows,
      (1 + q[r]?.getD 0) / 2 * w.entry r c * ((1 + q[c]?.getD 0) / 2) := by
  have hreals (i : ℕ) (hi : i ∈ range w.rows) :
      (Bits.ofSpins q).reals[i]?.getD 0 = (1 + q[i]?.getD 0) / 2 :=
    Bits.reals_ofSpins hspin (hq ▸ mem_range.mp hi)
  rw [quadratic_rat hsq]
  exact sum_congr rfl fun r hr => sum_congr rfl fun c hc => by rw [hreals r hr, hreals c hc]

/-- On spins of either sign, the spin form of an accepted matrix is the energy of the variables,
up to what mirrored weights differ in. -/
theorem energy_ising {w : Matrix ℚ} {model : Ising ℚ} (h : ising w = .ok model) {q : List ℚ}
    (hq : q.length = w.rows) (hspin : ∀ s ∈ q, s = 1 ∨ s = -1) :
    model.energy q = quadratic w (Bits.ofSpins q).reals +
      1 / 4 * ∑ r ∈ range w.rows, ∑ c ∈ range w.rows,
        w.entry r c * (q[r]?.getD 0 - q[c]?.getD 0) := by
  obtain ⟨hw, rfl⟩ := ising_eq_ok_iff.mp h
  have hsq := isSquare_of_check hw
  have hsquare (i : ℕ) (hi : i < w.rows) : q[i]?.getD 0 * q[i]?.getD 0 = 1 := by
    have hmem := hspin q[i] (List.getElem_mem (hq ▸ hi))
    rw [List.getElem?_eq_getElem (hq ▸ hi), Option.getD_some]
    rcases hmem with he | he <;> rw [he] <;> norm_num
  rw [Ising.energy, dot_fields hsq, dot_couplings hsq q, quadratic_ofSpins hsq hq hspin,
    w.sum_eq_rat, w.trace_rat hsq, ← hsq, Scalar.quarter_rat]
  exact spin_form w.rows w.entry (fun i => q[i]?.getD 0) hsquare

/-- With equal mirrored entries the two forms agree on spins of either sign. -/
theorem energy_ising_of_isMirrored {w : Matrix ℚ} {model : Ising ℚ} (h : ising w = .ok model)
    (hw : w.IsMirrored) {q : List ℚ} (hq : q.length = w.rows)
    (hspin : ∀ s ∈ q, s = 1 ∨ s = -1) :
    model.energy q = quadratic w (Bits.ofSpins q).reals := by
  have hzero : ∑ r ∈ range w.rows, ∑ c ∈ range w.rows,
      w.entry r c * (q[r]?.getD 0 - q[c]?.getD 0) = 0 := by
    have hswap : ∑ r ∈ range w.rows, ∑ c ∈ range w.rows, w.entry r c * q[c]?.getD 0 =
        ∑ r ∈ range w.rows, ∑ c ∈ range w.rows, w.entry r c * q[r]?.getD 0 := by
      rw [sum_comm]
      refine sum_congr rfl fun r hr => sum_congr rfl fun c hc => ?_
      rw [hw.2 c (mem_range.mp hc) r (mem_range.mp hr)]
    simp only [mul_sub, sum_sub_distrib]
    rw [hswap, sub_self]
  rw [energy_ising h hq hspin, hzero, mul_zero, add_zero]

end Qubo.Dense

import Mathlib.Tactic
import Mathlib.Algebra.BigOperators.Intervals
import Qubo.Bipartite
import Qubo.Proofs.Bits
import Qubo.Proofs.Matrix

/-! Bipartite problems over exact arithmetic: the energy as sums over both layers, and its
agreement with the spin form on spins of either sign. -/
namespace Qubo.Bipartite
open Finset
section
variable {α : Type} [Scalar α]

omit [Scalar α] in
theorem Coefficients.check_eq_ok_iff {p : Coefficients α} :
    p.check = .ok () ↔ p.w.rows = p.b1.length ∧ p.w.cols = p.b0.length := by
  unfold Coefficients.check Matrix.shape
  split
  next h => simpa using h
  next h => simpa using h

@[simp] theorem Coefficients.length_b0_signed (p : Coefficients α) (d : Direction) :
    (p.signed d).b0.length = p.b0.length := by simp [Coefficients.signed]

@[simp] theorem Coefficients.length_b1_signed (p : Coefficients α) (d : Direction) :
    (p.signed d).b1.length = p.b1.length := by simp [Coefficients.signed]

/-- The spin form of a bipartite energy. -/
theorem Coefficients.ising_eq_ok_iff {p : Coefficients α} {model : Ising α} :
    p.ising = .ok model ↔ p.check = .ok () ∧ model = {
      h0 := localField p.b0 p.w.colSums
      h1 := localField p.b1 p.w.rowSums
      j := p.w.scale Scalar.quarter
      c := Scalar.half * Scalar.sum p.b0 + Scalar.half * Scalar.sum p.b1 +
        Scalar.quarter * p.w.sum } := by
  unfold Coefficients.ising
  cases hp : p.check with
  | error e => simp [bind, Except.bind]
  | ok u => simp [bind, Except.bind, pure, Except.pure, eq_comm]

@[simp] theorem Ising.length_h0_signed (m : Ising α) (d : Direction) :
    (m.signed d).h0.length = m.h0.length := by simp [Ising.signed]

@[simp] theorem Ising.length_h1_signed (m : Ising α) (d : Direction) :
    (m.signed d).h1.length = m.h1.length := by simp [Ising.signed]

theorem Coefficients.length_h_ising {p : Coefficients α} {model : Ising α}
    (h : p.ising = .ok model) :
    model.h0.length = p.b0.length ∧ model.h1.length = p.b1.length := by
  obtain ⟨hp, rfl⟩ := Coefficients.ising_eq_ok_iff.mp h
  obtain ⟨hr, hc⟩ := Coefficients.check_eq_ok_iff.mp hp
  constructor <;> simp [localField, hr, hc]

/-- A row of couplings per variable of the second layer, a column per variable of the first. -/
def Ising.IsShaped (model : Ising α) : Prop :=
  model.j.rows = model.h1.length ∧ model.j.cols = model.h0.length

theorem isShaped_signed_of_ising {p : Coefficients α} {model : Ising α} (h : p.ising = .ok model)
    (d : Direction) : (model.signed d).IsShaped := by
  obtain ⟨hlength0, hlength1⟩ := Coefficients.length_h_ising h
  obtain ⟨hcheck, hmodel⟩ := Coefficients.ising_eq_ok_iff.mp h
  obtain ⟨hrows, hcols⟩ := Coefficients.check_eq_ok_iff.mp hcheck
  have hj : model.j = p.w.scale Scalar.quarter := by rw [hmodel]
  constructor
  · rw [Ising.length_h1_signed, hlength1, ← hrows]
    exact (model.j.rows_sign d).trans (by rw [hj, Matrix.rows_scale])
  · rw [Ising.length_h0_signed, hlength0, ← hcols]
    exact (model.j.cols_sign d).trans (by rw [hj, Matrix.cols_scale])

end

namespace Coefficients

theorem energy_eq_ok_iff {α : Type} [Scalar α] {p : Coefficients α} (hp : p.check = .ok ())
    {x : BitsPair} {e : α} : p.energy x = .ok e ↔
      x.x0.size = p.b0.length ∧ x.x1.size = p.b1.length ∧ e = p.value x.x0.reals x.x1.reals := by
  by_cases h0 : x.x0.size = p.b0.length
  · by_cases h1 : x.x1.size = p.b1.length
    · simp [energy, hp, h0, h1, bind, Except.bind, pure, Except.pure, eq_comm]
    · simp [energy, hp, h0, h1, bind, Except.bind, throw, throwThe, MonadExceptOf.throw]
  · simp [energy, hp, h0, bind, Except.bind, throw, throwThe, MonadExceptOf.throw]

theorem value_signed (p : Coefficients ℚ) (d : Direction) (x0 x1 : List ℚ) :
    (p.signed d).value x0 x1 = d.sign (p.value x0 x1) := by
  rw [value, value, Direction.sign_add, Direction.sign_add, ← Direction.dot_map_sign,
    ← Direction.dot_map_sign, ← p.w.dot_mulVec_sign]
  rfl

theorem value_rat {p : Coefficients ℚ} (hp : p.check = .ok ()) (x0 x1 : List ℚ) :
    p.value x0 x1 = ∑ i ∈ range p.b0.length, p.b0[i]?.getD 0 * x0[i]?.getD 0 +
      ∑ j ∈ range p.b1.length, p.b1[j]?.getD 0 * x1[j]?.getD 0 +
      ∑ j ∈ range p.b1.length, ∑ i ∈ range p.b0.length,
        x1[j]?.getD 0 * p.w.entry j i * x0[i]?.getD 0 := by
  obtain ⟨hr, hc⟩ := check_eq_ok_iff.mp hp
  rw [value, Scalar.dot_rat x0 le_rfl, Scalar.dot_rat x1 le_rfl,
    p.w.dot_mulVec_rat, hr, hc]

end Coefficients

namespace Ising

theorem energy_signed (m : Ising ℚ) (d : Direction) (q0 q1 : List ℚ) :
    (m.signed d).energy q0 q1 = d.sign (m.energy q0 q1) := by
  rw [energy, energy, Direction.sign_add, Direction.sign_add, Direction.sign_add,
    ← Direction.dot_map_sign, ← Direction.dot_map_sign, ← m.j.dot_mulVec_sign]
  rfl

/-- Seen from the first layer, the couplings act as their transpose. -/
theorem energy_from_first (m : Ising ℚ) (q0 q1 : List ℚ) :
    m.energy q0 q1 = m.c + Scalar.dot m.h1 q1 + Scalar.dot m.h0 q0 +
      Scalar.dot q0 (m.j.transpose.mulVec q1) := by
  rw [m.j.dot_mulVec_transpose, energy]
  ring

end Ising

namespace Coefficients

/-- What a layer contributes: its biases on the variables and half the couplings on its spins. -/
private theorem dot_localField {n : ℕ} {b s q : List ℚ} (hb : b.length = n) (hs : s.length = n) :
    Scalar.dot (localField b s) q =
      ∑ i ∈ range n, (1 / 2 * b[i]?.getD 0 + 1 / 4 * s[i]?.getD 0) * q[i]?.getD 0 := by
  rw [Scalar.dot_rat (n := n) _ (by simp [localField, hb])]
  refine sum_congr rfl fun i hi => ?_
  have hi := mem_range.mp hi
  rw [localField, List.getElem?_zipWith, List.getElem?_eq_getElem (hb ▸ hi),
    List.getElem?_eq_getElem (hs ▸ hi), Scalar.half_rat, Scalar.quarter_rat]
  rfl

/-- The substitution `x = (1 + q) / 2` in sums over both layers. -/
private theorem two_layer_form (n0 n1 : ℕ) (b0 b1 q0 q1 : ℕ → ℚ) (w : ℕ → ℕ → ℚ) :
    1 / 2 * ∑ i ∈ range n0, b0 i + 1 / 2 * ∑ j ∈ range n1, b1 j +
      1 / 4 * ∑ j ∈ range n1, ∑ i ∈ range n0, w j i +
      ∑ i ∈ range n0, (1 / 2 * b0 i + 1 / 4 * ∑ j ∈ range n1, w j i) * q0 i +
      ∑ j ∈ range n1, (1 / 2 * b1 j + 1 / 4 * ∑ i ∈ range n0, w j i) * q1 j +
      ∑ j ∈ range n1, ∑ i ∈ range n0, q1 j * (w j i * (1 / 4)) * q0 i =
    ∑ i ∈ range n0, b0 i * ((1 + q0 i) / 2) + ∑ j ∈ range n1, b1 j * ((1 + q1 j) / 2) +
      ∑ j ∈ range n1, ∑ i ∈ range n0, (1 + q1 j) / 2 * w j i * ((1 + q0 i) / 2) := by
  have hbias (n : ℕ) (b q : ℕ → ℚ) : ∑ i ∈ range n, b i * ((1 + q i) / 2) =
      1 / 2 * ∑ i ∈ range n, b i + ∑ i ∈ range n, 1 / 2 * b i * q i := by
    rw [mul_sum, ← sum_add_distrib]
    exact sum_congr rfl fun i _ => by ring
  have hfirst : ∑ i ∈ range n0, 1 / 4 * (∑ j ∈ range n1, w j i) * q0 i =
      ∑ j ∈ range n1, ∑ i ∈ range n0, 1 / 4 * w j i * q0 i := by
    rw [sum_comm]
    exact sum_congr rfl fun i _ => by rw [mul_sum, sum_mul]
  have hsecond : ∑ j ∈ range n1, 1 / 4 * (∑ i ∈ range n0, w j i) * q1 j =
      ∑ j ∈ range n1, ∑ i ∈ range n0, 1 / 4 * w j i * q1 j :=
    sum_congr rfl fun j _ => by rw [mul_sum, sum_mul]
  have hcouplings : ∑ j ∈ range n1, ∑ i ∈ range n0, (1 + q1 j) / 2 * w j i * ((1 + q0 i) / 2) =
      1 / 4 * ∑ j ∈ range n1, ∑ i ∈ range n0, w j i +
        ∑ j ∈ range n1, ∑ i ∈ range n0, 1 / 4 * w j i * q0 i +
        ∑ j ∈ range n1, ∑ i ∈ range n0, 1 / 4 * w j i * q1 j +
        ∑ j ∈ range n1, ∑ i ∈ range n0, q1 j * (w j i * (1 / 4)) * q0 i := by
    simp only [mul_sum, ← sum_add_distrib]
    exact sum_congr rfl fun j _ => sum_congr rfl fun i _ => by ring
  rw [hbias, hbias, hcouplings]
  simp only [add_mul, sum_add_distrib]
  rw [hfirst, hsecond]
  ring

/-- The value of the pair of assignments that spins of either sign are read as. -/
theorem value_ofSpins {p : Coefficients ℚ} (hp : p.check = .ok ()) {q0 q1 : List ℚ}
    (h0 : q0.length = p.b0.length) (h1 : q1.length = p.b1.length)
    (hspin0 : ∀ s ∈ q0, s = 1 ∨ s = -1) (hspin1 : ∀ s ∈ q1, s = 1 ∨ s = -1) :
    p.value (Bits.ofSpins q0).reals (Bits.ofSpins q1).reals =
      ∑ i ∈ range p.b0.length, p.b0[i]?.getD 0 * ((1 + q0[i]?.getD 0) / 2) +
      ∑ j ∈ range p.b1.length, p.b1[j]?.getD 0 * ((1 + q1[j]?.getD 0) / 2) +
      ∑ j ∈ range p.b1.length, ∑ i ∈ range p.b0.length,
        (1 + q1[j]?.getD 0) / 2 * p.w.entry j i * ((1 + q0[i]?.getD 0) / 2) := by
  have hreals0 (i : ℕ) (hi : i ∈ range p.b0.length) :
      (Bits.ofSpins q0).reals[i]?.getD 0 = (1 + q0[i]?.getD 0) / 2 :=
    Bits.reals_ofSpins hspin0 (h0 ▸ mem_range.mp hi)
  have hreals1 (j : ℕ) (hj : j ∈ range p.b1.length) :
      (Bits.ofSpins q1).reals[j]?.getD 0 = (1 + q1[j]?.getD 0) / 2 :=
    Bits.reals_ofSpins hspin1 (h1 ▸ mem_range.mp hj)
  rw [value_rat hp]
  refine congrArg₂ (· + ·) (congrArg₂ (· + ·) ?_ ?_) ?_
  · exact sum_congr rfl fun i hi => by rw [hreals0 i hi]
  · exact sum_congr rfl fun j hj => by rw [hreals1 j hj]
  · exact sum_congr rfl fun j hj => sum_congr rfl fun i hi => by rw [hreals0 i hi, hreals1 j hj]

section
variable {p : Coefficients ℚ} (hr : p.w.rows = p.b1.length) (hc : p.w.cols = p.b0.length)
include hr hc

theorem dot_fields_first (q0 : List ℚ) : Scalar.dot (localField p.b0 p.w.colSums) q0 =
    ∑ i ∈ range p.b0.length, (1 / 2 * p.b0[i]?.getD 0 +
      1 / 4 * ∑ j ∈ range p.b1.length, p.w.entry j i) * q0[i]?.getD 0 := by
  rw [dot_localField rfl (p.w.length_colSums.trans hc)]
  exact sum_congr rfl fun i hi => by rw [p.w.colSums_rat (hc ▸ mem_range.mp hi), hr]; rfl

theorem dot_fields_second (q1 : List ℚ) : Scalar.dot (localField p.b1 p.w.rowSums) q1 =
    ∑ j ∈ range p.b1.length, (1 / 2 * p.b1[j]?.getD 0 +
      1 / 4 * ∑ i ∈ range p.b0.length, p.w.entry j i) * q1[j]?.getD 0 := by
  rw [dot_localField rfl (p.w.length_rowSums.trans hr)]
  exact sum_congr rfl fun j hj => by rw [p.w.rowSums_rat (hr ▸ mem_range.mp hj), hc]; rfl

theorem dot_couplings (q0 q1 : List ℚ) :
    Scalar.dot q1 ((p.w.scale Scalar.quarter).mulVec q0) =
      ∑ j ∈ range p.b1.length, ∑ i ∈ range p.b0.length,
        q1[j]?.getD 0 * (p.w.entry j i * (1 / 4)) * q0[i]?.getD 0 := by
  rw [(p.w.scale Scalar.quarter).dot_mulVec_rat]
  simp only [Matrix.rows_scale, Matrix.cols_scale, hr, hc]
  refine sum_congr rfl fun j hj => sum_congr rfl fun i hi => ?_
  rw [Matrix.scale, p.w.entry_map _ (hr ▸ mem_range.mp hj) (hc ▸ mem_range.mp hi),
    Scalar.quarter_rat]

end

/-- The spin form of an accepted problem is the energy of the variables. -/
theorem energy_ising {p : Coefficients ℚ} {model : Ising ℚ} (h : p.ising = .ok model)
    {q0 q1 : List ℚ} (h0 : q0.length = p.b0.length) (h1 : q1.length = p.b1.length)
    (hspin0 : ∀ s ∈ q0, s = 1 ∨ s = -1) (hspin1 : ∀ s ∈ q1, s = 1 ∨ s = -1) :
    model.energy q0 q1 = p.value (Bits.ofSpins q0).reals (Bits.ofSpins q1).reals := by
  obtain ⟨hp, rfl⟩ := ising_eq_ok_iff.mp h
  obtain ⟨hr, hc⟩ := check_eq_ok_iff.mp hp
  rw [Ising.energy, dot_fields_first hr hc, dot_fields_second hr hc, dot_couplings hr hc q0 q1,
    value_ofSpins hp h0 h1 hspin0 hspin1, p.w.sum_eq_rat, hr, hc, Scalar.half_rat,
    Scalar.quarter_rat, Scalar.sum_eq_sum_range le_rfl, Scalar.sum_eq_sum_range le_rfl]
  exact two_layer_form _ _ (fun i => p.b0[i]?.getD 0) (fun j => p.b1[j]?.getD 0)
    (fun i => q0[i]?.getD 0) (fun j => q1[j]?.getD 0) p.w.entry

end Coefficients

end Qubo.Bipartite

import Mathlib.Tactic
import Mathlib.Algebra.BigOperators.Intervals
import Qubo.Direction

/-! Exact arithmetic: over the rationals the numbers of the library are the ordinary ones, a
product of vectors is a finite sum, and the sign of a direction turns "better" into "less". -/
namespace Qubo
open Finset

/-- Two sums that differ in a single term. -/
theorem sum_sub_sum_of_eq {n i : ℕ} {f f' : ℕ → ℚ} (hi : i < n)
    (h : ∀ k < n, k ≠ i → f' k = f k) :
    ∑ k ∈ range n, f' k - ∑ k ∈ range n, f k = f' i - f i := by
  rw [← sum_sub_distrib, sum_eq_single_of_mem i (mem_range.mpr hi)]
  intro k hk hne
  rw [h k (mem_range.mp hk) hne, sub_self]

namespace Scalar

@[simp] theorem zero_rat : (zero : ℚ) = 0 := by simp [zero]

@[simp] theorem one_rat : (one : ℚ) = 1 := by simp [one]

@[simp] theorem two_rat : (two : ℚ) = 2 := by simp [two]

@[simp] theorem half_rat : (half : ℚ) = 1 / 2 := by simp [half, ratio]

@[simp] theorem quarter_rat : (quarter : ℚ) = 1 / 4 := by simp [quarter, ratio]

theorem tolerance_pos : (0 : ℚ) < tolerance := by norm_num [tolerance, ratio]

theorem magnitude_rat (x : ℚ) : magnitude x = |x| := by
  unfold magnitude
  rw [zero_rat]
  split
  next h => exact (abs_of_neg h).symm
  next h => exact (abs_of_nonneg (not_lt.mp h)).symm

theorem clampNegative_rat (x : ℚ) : clampNegative x = max 0 x := by
  unfold clampNegative
  rw [zero_rat]
  split
  next h => exact (max_eq_right h.le).symm
  next h => exact (max_eq_left (not_lt.mp h)).symm

theorem sum_rat (xs : List ℚ) : sum xs = xs.sum := List.sum_eq_foldl.symm

/-- Entries past the end count as zero, so the sum may run over any range that covers the
shorter vector. -/
theorem dot_rat {n : ℕ} {xs : List ℚ} (ys : List ℚ) (h : xs.length ≤ n) :
    dot xs ys = ∑ i ∈ range n, xs[i]?.getD 0 * ys[i]?.getD 0 := by
  rw [dot, sum_rat]
  induction n generalizing xs ys with
  | zero => simp [List.length_eq_zero_iff.mp (Nat.le_zero.mp h)]
  | succ n ih =>
    cases xs with
    | nil => simp
    | cons x xs =>
      cases ys with
      | nil => simp
      | cons y ys =>
        rw [List.zipWith_cons_cons, List.sum_cons, ih ys (by simpa using h), sum_range_succ']
        simp [add_comm]

theorem sum_eq_sum_range {n : ℕ} {xs : List ℚ} (h : xs.length ≤ n) :
    sum xs = ∑ i ∈ range n, xs[i]?.getD 0 := by
  rw [sum_rat]
  induction n generalizing xs with
  | zero => simp [List.length_eq_zero_iff.mp (Nat.le_zero.mp h)]
  | succ n ih =>
    cases xs with
    | nil => simp
    | cons x xs =>
      rw [List.sum_cons, ih (by simpa using h), sum_range_succ']
      simp [add_comm]

theorem sum_map_range (f : ℕ → ℚ) (n : ℕ) : ((List.range n).map f).sum = ∑ i ∈ range n, f i := by
  induction n with
  | zero => simp
  | succ n ih => simp [List.range_succ, sum_range_succ, ih]

theorem dot_comm (xs ys : List ℚ) : dot xs ys = dot ys xs := by
  rw [dot, dot, List.zipWith_comm_of_comm mul_comm]

/-- A product of vectors changes with one entry of the first by what stands beside it. -/
theorem dot_set_sub {v : List ℚ} (ys : List ℚ) {i : ℕ} (hi : i < v.length) (x : ℚ) :
    dot (v.set i x) ys - dot v ys = (x - v[i]?.getD 0) * ys[i]?.getD 0 := by
  rw [dot_rat (n := v.length) _ List.length_set.le, dot_rat (n := v.length) _ le_rfl,
    sum_sub_sum_of_eq hi fun k _ hne => by rw [List.getElem?_set_ne hne.symm],
    List.getElem?_set_self hi, Option.getD_some]
  ring

end Scalar

namespace Direction

@[simp] theorem sign_sign {β : Type} [InvolutiveNeg β] (d : Direction) (x : β) :
    d.sign (d.sign x) = x := by
  cases d with
  | minimize => rfl
  | maximize => exact neg_neg x

theorem sign_add (d : Direction) (x y : ℚ) : d.sign (x + y) = d.sign x + d.sign y := by
  cases d with
  | minimize => rfl
  | maximize => exact neg_add x y

theorem sign_sub (d : Direction) (x y : ℚ) : d.sign (x - y) = d.sign x - d.sign y := by
  cases d with
  | minimize => rfl
  | maximize => exact neg_sub' x y

theorem sign_mul (d : Direction) (x y : ℚ) : d.sign (x * y) = d.sign x * y := by
  cases d with
  | minimize => rfl
  | maximize => exact neg_mul_eq_neg_mul x y

theorem sign_div (d : Direction) (x y : ℚ) : d.sign (x / y) = d.sign x / y := by
  rw [div_eq_mul_inv, div_eq_mul_inv, sign_mul]

@[simp] theorem abs_sign (d : Direction) (x : ℚ) : |d.sign x| = |x| := by
  cases d <;> simp [sign]

theorem sign_sum {ι : Type} (d : Direction) (s : Finset ι) (f : ι → ℚ) :
    d.sign (∑ i ∈ s, f i) = ∑ i ∈ s, d.sign (f i) := by
  cases d <;> simp [sign]

theorem dot_map_sign (d : Direction) (xs ys : List ℚ) :
    Scalar.dot (xs.map d.sign) ys = d.sign (Scalar.dot xs ys) := by
  rw [Scalar.dot_rat (n := xs.length) ys (by simp), Scalar.dot_rat ys le_rfl, sign_sum]
  refine sum_congr rfl fun i hi => ?_
  rw [sign_mul, List.getElem?_map, List.getElem?_eq_getElem (mem_range.mp hi)]
  rfl

theorem isBetter_rat (d : Direction) (a b : ℚ) :
    d.isBetter a b = decide (d.sign a < d.sign b) := by
  rcases lt_trichotomy a b with h | h | h <;>
    cases d <;> simp [isBetter, compare, sign, h, h.not_gt]

end Direction

end Qubo

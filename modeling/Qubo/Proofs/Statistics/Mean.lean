import Mathlib.Tactic
import Qubo.Statistics.Mean
import Qubo.Proofs.Exact

/-! Means and confidence intervals of exact numbers: they look at no order in the sample, and those
of the negated sample are their mirror images. -/
namespace Qubo.Statistics

theorem share_rat (total : ℚ) (count : ℕ) : share total count = total / count := by
  unfold share
  split
  next h => simp [h]
  next => rfl

theorem mean_rat (xs : List ℚ) : mean xs = xs.sum / xs.length := by
  rw [mean, share_rat, Scalar.sum_rat]

section Mean
variable {xs xs' : List ℚ}

theorem mean_perm (h : xs'.Perm xs) : mean xs' = mean xs := by
  rw [mean_rat, mean_rat, h.sum_eq, h.length_eq]

theorem mean_neg (xs : List ℚ) : mean (xs.map (-·)) = -mean xs := by
  rw [mean_rat, mean_rat, ← List.sum_neg, List.length_map, neg_div]

/-- The sum of the squared distances from the mean. -/
def scatter (xs : List ℚ) : ℚ := (xs.map (squaredDistance (mean xs))).sum

theorem scatter_perm (h : xs'.Perm xs) : scatter xs' = scatter xs := by
  rw [scatter, scatter, mean_perm h]
  exact (h.map _).sum_eq

theorem scatter_neg (xs : List ℚ) : scatter (xs.map (-·)) = scatter xs := by
  rw [scatter, scatter, mean_neg, List.map_map]
  congr 1
  refine List.map_congr_left fun x _ => ?_
  simp only [Function.comp_apply, squaredDistance]
  ring

variable [Transcendental ℚ]

/-- Half the width of the confidence interval of `n` values. -/
def margin (n : ℕ) (scatter : ℚ) : ℚ :=
  confidenceWidth * Transcendental.sqrt (scatter / (n - 1) / n)

theorem confidenceInterval_eq (xs : List ℚ) : confidenceInterval xs =
    if xs.length ≤ 1 then (mean xs, mean xs)
    else (mean xs - margin xs.length (scatter xs), mean xs + margin xs.length (scatter xs)) := by
  match xs with
  | [] => simp [confidenceInterval, mean_rat]
  | [x] => simp [confidenceInterval]
  | x :: y :: xs => simp [confidenceInterval, margin, scatter, Scalar.sum_rat]

theorem confidenceInterval_perm (h : xs'.Perm xs) :
    confidenceInterval xs' = confidenceInterval xs := by
  rw [confidenceInterval_eq, confidenceInterval_eq, h.length_eq, mean_perm h, scatter_perm h]

theorem confidenceInterval_neg (xs : List ℚ) : confidenceInterval (xs.map (-·)) =
    (-(confidenceInterval xs).2, -(confidenceInterval xs).1) := by
  rw [confidenceInterval_eq, confidenceInterval_eq, List.length_map, mean_neg, scatter_neg]
  split_ifs
  · rfl
  · refine Prod.ext ?_ ?_
    · ring
    · ring

end Mean

end Qubo.Statistics

import Qubo.Scalar

/-!
The mean of a sample, and an interval around it that holds the true mean in about nineteen of
twenty cases.
-/
namespace Qubo.Statistics
variable {α : Type} [Scalar α]

/-- A total shared out; none over nothing. -/
@[specialize] def share (total : α) (count : Nat) : α :=
  if count = 0 then Scalar.zero else total / (count : α)

@[specialize] def mean (xs : List α) : α := share (Scalar.sum xs) xs.length

/-- Half the width of the interval, in standard errors. -/
@[specialize] def confidenceWidth : α := Scalar.ratio 196 100

@[specialize] def squaredDistance (centre x : α) : α := (x - centre) * (x - centre)

/-- The confidence interval of the mean. One value alone is the mean and leaves no width. -/
@[specialize] def confidenceInterval [Transcendental α] (xs : List α) : α × α :=
  match xs with
  | [] => (Scalar.zero, Scalar.zero)
  | [_] => (mean xs, mean xs)
  | _ =>
    let n : α := (xs.length : α)
    let m := mean xs
    let variance := Scalar.sum (xs.map (squaredDistance m)) / (n - Scalar.one)
    let margin := confidenceWidth * Transcendental.sqrt (variance / n)
    (m - margin, m + margin)

end Qubo.Statistics

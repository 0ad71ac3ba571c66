/-!
The standard normal law.
-/
namespace Qubo

/-- The distribution function of the standard normal law. No law is asked of it: exact
arithmetic takes any function. -/
class NormalLaw (α : Type) where
  cdf : α → α

namespace Statistics

/-- Adds the terms of the series `x + x ^ 3 / 3 + x ^ 5 / (3 * 5) + …`, whose next term is `term`
with `odd` as the last factor below it. -/
def seriesFrom (square : Float) : Nat → Float → Float → Float → Float
  | 0, _, _, total => total
  | n + 1, term, odd, total =>
    let next := term * square / (odd + 2.0)
    seriesFrom square n next (odd + 2.0) (total + next)

/-- Terms of the series that leave no error within eight standard deviations. -/
def seriesTerms : Nat := 200

/-- The reciprocal of the square root of twice pi. -/
def densityAtZero : Float := 0.3989422804014327

/-- Beyond eight standard deviations the distribution function is zero or one to fifteen places;
within, one half plus the density times the series. -/
def normalCdf (x : Float) : Float :=
  if x > 8.0 then 1.0
  else if x < -8.0 then 0.0
  else
    let density := densityAtZero * Float.exp (-(x * x) / 2.0)
    0.5 + density * seriesFrom (x * x) seriesTerms x 1.0 x

end Statistics

instance : NormalLaw Float := ⟨Statistics.normalCdf⟩

end Qubo

import Qubo.Scalar
import Qubo.Statistics.Normal

/-!
The signed-rank test of paired differences: how likely ranks as uneven as these are when
differences of either sign are equally likely.
-/
namespace Qubo.Statistics.SignedRank
variable {α : Type} [Scalar α]

/-- The differences that count, those within the tolerance left out. -/
@[specialize] def counted (differences : List α) : List α :=
  differences.filter fun d => Scalar.tolerance < Scalar.magnitude d

/-- From the smallest magnitude to the largest; equal ones keep their order. -/
@[specialize] def byMagnitude (differences : List α) : List α :=
  differences.mergeSort fun a b => decide (Scalar.magnitude a ≤ Scalar.magnitude b)

/-- Magnitudes closer than this are tied. -/
@[specialize] def tieWidth : α := Scalar.ratio 1 1000000000000

@[specialize] def isTied (first next : α) : Bool :=
  Scalar.magnitude (Scalar.magnitude next - Scalar.magnitude first) < tieWidth

/-- Splits sorted differences into groups of those tied with the first of their group. -/
@[specialize] def groups : List α → List (List α)
  | [] => []
  | d :: ds => (d :: ds.takeWhile (isTied d)) :: groups (ds.dropWhile (isTied d))
termination_by ds => ds.length
decreasing_by
  have := (ds.dropWhile_sublist (isTied d)).length_le
  simp only [List.length_cons]
  omega

structure Ranked (α : Type) where
  rank : α
  difference : α

/-- Ranks the members of each group by the average of the ranks they take up, of which some have
gone before. -/
@[specialize] def rankFrom (before : Nat) : List (List α) → List (Ranked α)
  | [] => []
  | g :: gs =>
    g.map (⟨Scalar.ratio (2 * before + g.length + 1) 2, ·⟩) ++ rankFrom (before + g.length) gs

/-- The sum of the ranks of the differences of one sign. -/
@[specialize] def rankSum (positive : Bool) (ranked : List (Ranked α)) : α :=
  Scalar.sum ((ranked.filter fun r =>
    if positive then decide (Scalar.zero < r.difference)
    else decide (r.difference < Scalar.zero)).map (·.rank))

/-- By how much a group of ties makes the variance smaller. -/
@[specialize] def tieTerm (size : Nat) : α :=
  let c : α := (size : α)
  (c * c * c - c) / (48 : Nat)

/-- The mean of the rank sum of either sign. -/
@[specialize] def meanSum (n : Nat) : α := (n : α) * ((n : α) + Scalar.one) / (4 : Nat)

/-- The variance of the rank sum, corrected for ties. -/
@[specialize] def variance (n : Nat) (gs : List (List α)) : α :=
  (n : α) * ((n : α) + Scalar.one) * (Scalar.two * (n : α) + Scalar.one) / (24 : Nat) -
    Scalar.sum ((gs.filter (1 < ·.length)).map fun g => tieTerm g.length)

/-- A probability kept between zero and one. -/
@[specialize] def clampUnit (p : α) : α :=
  if p < Scalar.zero then Scalar.zero else if Scalar.one < p then Scalar.one else p

structure Verdict (α : Type) where
  pValue : α
  /-- The number of differences that count. -/
  sampleSize : Nat
  deriving DecidableEq, Repr

/-- The two-sided test by the normal approximation with continuity correction. -/
@[specialize] def test [Transcendental α] [NormalLaw α] (differences : List α) : Verdict α :=
  let ds := counted differences
  let n := ds.length
  if n = 0 then ⟨Scalar.one, 0⟩
  else
    let gs := groups (byMagnitude ds)
    let ranked := rankFrom 0 gs
    let plus := rankSum true ranked
    let minus := rankSum false ranked
    let smaller := if minus < plus then minus else plus
    let spread := variance n gs
    if spread ≤ Scalar.zero then ⟨Scalar.one, n⟩
    else
      let z := (Scalar.magnitude (smaller - meanSum n) - Scalar.half) / Transcendental.sqrt spread
      ⟨clampUnit (Scalar.two * (Scalar.one - NormalLaw.cdf z)), n⟩

end Qubo.Statistics.SignedRank

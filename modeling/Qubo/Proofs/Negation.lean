import Mathlib.Tactic
import Qubo.Outcome
import Qubo.Proofs.Bipartite
import Qubo.Proofs.Dense
import Qubo.Proofs.Direction

/-! A problem with every coefficient negated, in the opposite direction: it is accepted when the
problem is, its signed forms are those of the problem, and the best of negated energies is found at
the same place. -/
namespace Qubo
open Finset

namespace Direction

def opposite : Direction → Direction
  | .minimize => .maximize
  | .maximize => .minimize

section
variable {β : Type} [InvolutiveNeg β] (d : Direction) (x : β)

theorem sign_opposite_neg : d.opposite.sign (-x) = d.sign x := by
  cases d with
  | minimize => exact neg_neg x
  | maximize => rfl

theorem sign_opposite : d.opposite.sign x = -d.sign x := by
  cases d with
  | minimize => rfl
  | maximize => exact (neg_neg x).symm

end

theorem sign_opposite_neg_sub_neg (d : Direction) (x y : ℚ) :
    d.opposite.sign (-x - -y) = d.sign (x - y) := by
  rw [neg_sub_neg, ← neg_sub, sign_opposite_neg]

theorem isBetter_opposite (d : Direction) (a b : ℚ) :
    d.opposite.isBetter (-a) (-b) = d.isBetter a b := by
  rw [isBetter_rat, isBetter_rat, sign_opposite_neg, sign_opposite_neg]

end Direction

/-- The same candidates, with every energy negated. -/
def Outcome.negate {α : Type} [Neg α] (o : Outcome α) : Outcome α :=
  { o with energies := o.energies.map (-·), bestEnergy := -o.bestEnergy }

theorem Outcome.collect_negate (d : Direction) (candidates : List (Keyed ℚ Assignment))
    (steps : ℕ) : collect d.opposite (candidates.map Keyed.negate) steps =
      (collect d candidates steps).map negate := by
  have hbest := Direction.best?_map (d := d) (e := d.opposite) (f := Keyed.negate)
    (fun a b : Keyed ℚ Assignment => d.isBetter_opposite a.key b.key) candidates
  rw [collect, collect, hbest]
  cases d.best? candidates with
  | none => rfl
  | some best =>
    simp only [Option.map_some, Except.map, negate, List.map_map]
    rfl

namespace Matrix

section
variable (m : Matrix ℚ)

@[simp] theorem rows_neg : (-m).rows = m.rows := rfl

@[simp] theorem cols_neg : (-m).cols = m.cols := rfl

/-- Past the end of the array both entries are zero. -/
@[simp] theorem entry_neg (r c : ℕ) : (-m).entry r c = -m.entry r c := by
  have hdata : (-m).data = m.data.map (-·) := rfl
  simp only [entry, cols_neg, hdata, Array.getD_eq_getD_getElem?, Array.getElem?_map]
  cases m.data[r * m.cols + c]? <;> simp

end

instance : InvolutiveNeg (Matrix ℚ) where
  neg_neg m := ext_entry rfl rfl fun r _ c _ => by simp

section
variable (m : Matrix ℚ)

theorem rowSums_neg : (-m).rowSums = m.rowSums.map (-·) := by
  refine List.ext_getElem? fun r => ?_
  by_cases hr : r < m.rows
  · rw [(-m).rowSums_rat hr, List.getElem?_map, m.rowSums_rat hr]
    simp
  · rw [List.getElem?_eq_none (by simpa using hr), List.getElem?_eq_none (by simpa using hr)]

theorem colSums_neg : (-m).colSums = m.colSums.map (-·) := by
  refine List.ext_getElem? fun c => ?_
  by_cases hc : c < m.cols
  · rw [(-m).colSums_rat hc, List.getElem?_map, m.colSums_rat hc]
    simp
  · rw [List.getElem?_eq_none (by simpa using hc), List.getElem?_eq_none (by simpa using hc)]

theorem sum_neg : (-m).sum = -m.sum := by
  rw [sum_eq_rat, sum_eq_rat]
  simp

theorem trace_neg (h : m.rows = m.cols) : (-m).trace = -m.trace := by
  rw [trace_rat (-m) h, trace_rat m h]
  simp

theorem scale_neg (k : ℚ) : (-m).scale k = -m.scale k := by
  refine ext_entry rfl rfl fun r (hr : r < m.rows) c (hc : c < m.cols) => ?_
  rw [entry_neg, scale, entry_map (-m) _ hr hc, entry_neg, scale, entry_map m _ hr hc, neg_mul]

theorem setDiagonal_neg : (-m).setDiagonal 0 = -m.setDiagonal 0 := by
  refine ext_entry rfl rfl fun r (hr : r < m.rows) c (hc : c < m.cols) => ?_
  rw [entry_neg, entry_setDiagonal (-m) 0 hr hc, entry_setDiagonal m 0 hr hc, entry_neg]
  split_ifs <;> simp

theorem isSymmetric_neg (eps : ℚ) : (-m).isSymmetric eps = m.isSymmetric eps := by
  have hmagnitude (x y : ℚ) : Scalar.magnitude (-x - -y) = Scalar.magnitude (x - y) := by
    rw [Scalar.magnitude_rat, Scalar.magnitude_rat, neg_sub_neg, abs_sub_comm]
  simp only [isSymmetric, isSquare, rows_neg, cols_neg, entry_neg, hmagnitude]

end

end Matrix

namespace Dense

theorem check_neg (w : Matrix ℚ) : check (-w) = check w := by
  unfold check
  rw [Matrix.isSymmetric_neg]
  rfl

theorem Ising.signed_opposite (m : Ising ℚ) (d : Direction) :
    (m.signed .maximize).signed d.opposite = m.signed d := by
  have hmaximize : m.signed .maximize = ⟨m.h.map (-·), -m.j, -m.c⟩ := rfl
  rw [hmaximize]
  simp only [signed, List.map_map, Direction.sign_opposite_neg]
  congr 1
  exact List.map_congr_left fun x _ => d.sign_opposite_neg x

theorem ising_neg (w : Matrix ℚ) : ising (-w) = (ising w).map (·.signed .maximize) := by
  unfold ising
  rw [check_neg]
  cases hw : check w with
  | error e => rfl
  | ok u =>
    have hsq := isSquare_of_check hw
    have hfields : (-w).rowSums.map (Scalar.half * ·) =
        (w.rowSums.map (Scalar.half * ·)).map (-·) := by
      rw [w.rowSums_neg, List.map_map, List.map_map]
      exact List.map_congr_left fun x _ => mul_neg _ x
    have hcouplings : ((-w).scale Scalar.quarter).setDiagonal Scalar.zero =
        -(w.scale Scalar.quarter).setDiagonal Scalar.zero := by
      rw [w.scale_neg, Scalar.zero_rat, Matrix.setDiagonal_neg]
    have hconstant : Scalar.quarter * (-w).sum + Scalar.quarter * (-w).trace =
        -(Scalar.quarter * w.sum + Scalar.quarter * w.trace) := by
      rw [w.sum_neg, w.trace_neg hsq]
      ring
    simp only [bind, Except.bind, pure, Except.pure, Except.map]
    rw [hfields, hcouplings, hconstant]
    rfl

end Dense

namespace Bipartite

theorem Ising.signed_opposite (m : Ising ℚ) (d : Direction) :
    (m.signed .maximize).signed d.opposite = m.signed d := by
  have hmaximize : m.signed .maximize = ⟨m.h0.map (-·), m.h1.map (-·), -m.j, -m.c⟩ := rfl
  rw [hmaximize]
  simp only [signed, List.map_map, Direction.sign_opposite_neg]
  congr 1 <;> exact List.map_congr_left fun x _ => d.sign_opposite_neg x

theorem localField_neg (bias couplings : List ℚ) :
    localField (bias.map (-·)) (couplings.map (-·)) = (localField bias couplings).map (-·) := by
  simp only [localField, List.zipWith_map, List.map_zipWith]
  congr 1
  funext b s
  ring

namespace Coefficients

/-- Every coefficient negated. -/
theorem signed_maximize (p : Coefficients ℚ) :
    p.signed .maximize = ⟨p.b0.map (-·), p.b1.map (-·), -p.w⟩ := rfl

theorem signed_opposite (p : Coefficients ℚ) (d : Direction) :
    (p.signed .maximize).signed d.opposite = p.signed d := by
  rw [signed_maximize]
  simp only [signed, List.map_map, Direction.sign_opposite_neg]
  congr 1 <;> exact List.map_congr_left fun x _ => d.sign_opposite_neg x

theorem check_signed_maximize (p : Coefficients ℚ) : (p.signed .maximize).check = p.check := by
  unfold check
  simp only [signed_maximize, List.length_map]
  rfl

theorem ising_signed_maximize (p : Coefficients ℚ) :
    (p.signed .maximize).ising = p.ising.map (·.signed .maximize) := by
  have hsum (xs : List ℚ) : Scalar.sum (xs.map (-·)) = -Scalar.sum xs := by
    rw [Scalar.sum_rat, Scalar.sum_rat, List.sum_neg]
  unfold ising
  rw [check_signed_maximize]
  cases p.check with
  | error e => rfl
  | ok u =>
    have hconstant : Scalar.half * Scalar.sum (p.b0.map (-·)) +
        Scalar.half * Scalar.sum (p.b1.map (-·)) + Scalar.quarter * (-p.w).sum =
        -(Scalar.half * Scalar.sum p.b0 + Scalar.half * Scalar.sum p.b1 +
          Scalar.quarter * p.w.sum) := by
      rw [hsum, hsum, p.w.sum_neg]
      ring
    simp only [bind, Except.bind, pure, Except.pure, Except.map, signed_maximize]
    rw [p.w.colSums_neg, p.w.rowSums_neg, localField_neg, localField_neg, p.w.scale_neg, hconstant]
    rfl

end Coefficients

end Bipartite

end Qubo

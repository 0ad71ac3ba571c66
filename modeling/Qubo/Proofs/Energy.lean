import Mathlib.Tactic
import Qubo.Direction
import Qubo.Random.Draw
import Qubo.Proofs.Exact

/-! Values that differ from themselves by nothing. An arithmetic whose random coefficients are such
values gives the empty assignment no energy, so that an exhaustive search always finds something. -/
namespace Qubo
namespace Scalar
variable {α : Type} [Scalar α]

/-- Neither above nor below zero. -/
def IsNull (x : α) : Prop := zero ≤ x ∧ x ≤ zero

/-- Neither infinite nor something that is no number. -/
def IsFinite (x : α) : Prop := IsNull (x - x)

end Scalar

open Scalar

/-- What the energies of random problems need of an arithmetic, and what machine floats have in
common with exact numbers. -/
class LawfulEnergies (α : Type) [Scalar α] : Prop where
  finite_coefficient : ∀ g, IsFinite (Random.Draw.coefficient (α := α) g).1
  finite_neg : ∀ x : α, IsFinite x → IsFinite (-x)
  finite_of_null : ∀ x : α, IsNull x → IsFinite x
  null_zero : IsNull (zero : α)
  null_neutral : IsNull (neutral : α)
  null_add : ∀ x y : α, IsNull x → IsNull y → IsNull (x + y)
  null_mul : ∀ x y : α, IsFinite x → IsNull y → IsNull (x * y)
  isBounded_of_null : ∀ x : α, IsNull x → isBounded x = true
  magnitude_le_of_null : ∀ x : α, IsNull x → magnitude x ≤ tolerance
  not_pos_sub_self : ∀ (d : Direction) (x : α), ¬ zero < d.sign (x - x)
  le_of_pos : ∀ x : α, zero < x → zero ≤ x

namespace Scalar

theorem isNull_rat {x : ℚ} : IsNull x ↔ x = 0 := by
  rw [IsNull, zero_rat, and_comm]
  exact le_antisymm_iff.symm

theorem isFinite_rat (x : ℚ) : IsFinite x := isNull_rat.mpr (sub_self x)

end Scalar

instance : LawfulEnergies ℚ where
  finite_coefficient _ := isFinite_rat _
  finite_neg _ _ := isFinite_rat _
  finite_of_null _ _ := isFinite_rat _
  null_zero := isNull_rat.mpr zero_rat
  null_neutral := isNull_rat.mpr rfl
  null_add x y hx hy := by
    rw [isNull_rat] at hx hy ⊢
    rw [hx, hy, add_zero]
  null_mul x y _ hy := by
    rw [isNull_rat] at hy ⊢
    rw [hy, mul_zero]
  isBounded_of_null _ _ := rfl
  magnitude_le_of_null x hx := by
    rw [magnitude_rat, isNull_rat.mp hx, abs_zero]
    exact tolerance_pos.le
  not_pos_sub_self d x := by
    rw [sub_self, zero_rat]
    cases d <;> simp [Direction.sign]
  le_of_pos _ h := h.le

/-- Arithmetic that never gets back from what is not finite: a finite sum or product has finite
parts. -/
class StaysInfinite (α : Type) [Scalar α] : Prop where
  finite_of_add : ∀ x y : α, IsFinite (x + y) → IsFinite x ∧ IsFinite y
  finite_of_mul : ∀ x y : α, IsFinite (x * y) → IsFinite x ∧ IsFinite y

instance : StaysInfinite ℚ where
  finite_of_add _ _ _ := ⟨isFinite_rat _, isFinite_rat _⟩
  finite_of_mul _ _ _ := ⟨isFinite_rat _, isFinite_rat _⟩

namespace Scalar
variable {α : Type} [Scalar α] [LawfulEnergies α]

theorem IsFinite.sign {x : α} (h : IsFinite x) (d : Direction) : IsFinite (d.sign x) := by
  cases d with
  | minimize => exact h
  | maximize => exact LawfulEnergies.finite_neg x h

theorem isFinite_zero : IsFinite (zero : α) :=
  LawfulEnergies.finite_of_null _ LawfulEnergies.null_zero

theorem isNull_sum {xs : List α} (h : ∀ x ∈ xs, IsNull x) : IsNull (sum xs) := by
  have hfold (acc : α) (hacc : IsNull acc) : IsNull (xs.foldl (· + ·) acc) := by
    induction xs generalizing acc with
    | nil => exact hacc
    | cons x xs ih =>
      apply ih fun y hy => h y (List.mem_cons_of_mem x hy)
      exact LawfulEnergies.null_add _ _ hacc (h x List.mem_cons_self)
  exact hfold neutral LawfulEnergies.null_neutral

theorem isNull_dot {xs ys : List α} (hxs : ∀ x ∈ xs, IsFinite x) (hys : ∀ y ∈ ys, IsNull y) :
    IsNull (dot xs ys) := by
  apply isNull_sum
  intro z hz
  obtain ⟨i, hi, rfl⟩ := List.mem_iff_getElem.mp hz
  rw [List.getElem_zipWith]
  exact LawfulEnergies.null_mul _ _ (hxs _ (List.getElem_mem _)) (hys _ (List.getElem_mem _))

end Scalar

namespace Scalar
variable {α : Type} [Scalar α] [StaysInfinite α]

theorem isFinite_of_foldl_add {xs : List α} {acc : α} (h : IsFinite (xs.foldl (· + ·) acc)) :
    IsFinite acc ∧ ∀ x ∈ xs, IsFinite x := by
  induction xs generalizing acc with
  | nil => exact ⟨h, by simp⟩
  | cons x xs ih =>
    obtain ⟨hsum, hxs⟩ := ih h
    obtain ⟨hacc, hx⟩ := StaysInfinite.finite_of_add acc x hsum
    exact ⟨hacc, List.forall_mem_cons.mpr ⟨hx, hxs⟩⟩

/-- A finite sum of products has finite factors. -/
theorem isFinite_of_dot {xs ys : List α} (hlength : xs.length = ys.length)
    (h : IsFinite (dot xs ys)) : (∀ x ∈ xs, IsFinite x) ∧ ∀ y ∈ ys, IsFinite y := by
  have hproduct {i : ℕ} (hx : i < xs.length) (hy : i < ys.length) :
      IsFinite xs[i] ∧ IsFinite ys[i] := by
    apply StaysInfinite.finite_of_mul
    apply (isFinite_of_foldl_add h).2
    rw [← List.getElem_zipWith (f := (· * ·)) (h := by simp [hx, hy])]
    exact List.getElem_mem _
  constructor
  · intro x hx
    obtain ⟨i, hi, rfl⟩ := List.mem_iff_getElem.mp hx
    exact (hproduct hi (hlength ▸ hi)).1
  · intro y hy
    obtain ⟨i, hi, rfl⟩ := List.mem_iff_getElem.mp hy
    exact (hproduct (hlength ▸ hi) hi).2

end Scalar

end Qubo

import Mathlib.Tactic
import Qubo.Proofs.Float.Shrink
import Qubo.Proofs.Schedule

/-! How long an accepted schedule of machine floats goes on: its fields never grow, so it ends
unless rounding keeps one of them above the end value where it is. -/
namespace Qubo.Schedule

section
variable {α : Type} [Scalar α] {s : Schedule α} {n : ℕ}

/-- Some field is not above the end value. -/
def Ends (s : Schedule α) : Prop := ∃ n, ¬ s.gEnd < s.field n

/-- The first field that is not above the end value is the one after `n` steps. -/
def EndsAfter (s : Schedule α) (n : ℕ) : Prop :=
  (∀ k < n, s.gEnd < s.field k) ∧ ¬ s.gEnd < s.field n

/-- The fields are all those before the first that is not above the end value. -/
def RunsOut (s : Schedule α) : Prop :=
  ∃ n, s.EndsAfter n ∧ s.fields = (List.range n).map s.field

/-- A field above the end value that a further step does not change. -/
def Stalls (s : Schedule α) : Prop := ∃ k, s.gEnd < s.field k ∧ s.field (k + 1) = s.field k

theorem Ends.exists_endsAfter (h : s.Ends) : ∃ n, s.EndsAfter n := by
  classical
  exact ⟨Nat.find h, fun k hk => not_not.mp (Nat.find_min h hk), Nat.find_spec h⟩

theorem fieldsFrom_field (h : s.EndsAfter n) {k bound : ℕ} (hk : k ≤ n) (hbound : n ≤ k + bound) :
    s.fieldsFrom bound (s.field k) = (List.range' k (n - k)).map s.field := by
  induction bound generalizing k with
  | zero =>
    obtain rfl : k = n := hk.antisymm hbound
    simp [fieldsFrom]
  | succ bound ih =>
    rw [fieldsFrom]
    rcases hk.lt_or_eq with hlt | rfl
    · rw [if_pos (h.1 k hlt), ← Nat.succ_pred_eq_of_pos (Nat.sub_pos_of_lt hlt),
        List.range'_succ, List.map_cons]
      exact congrArg (s.field k :: ·) (ih (k := k + 1) hlt (by omega))
    · rw [if_neg h.2, Nat.sub_self]
      rfl

/-- A bound that reaches to the end cuts off nothing. -/
theorem fieldsUpTo_eq (h : s.EndsAfter n) {bound : ℕ} (hbound : n ≤ bound) :
    s.fieldsUpTo bound = (List.range n).map s.field := by
  rw [List.range_eq_range']
  exact fieldsFrom_field h (Nat.zero_le n) (by omega)

theorem not_ends_of_fixed {k : ℕ} (hfixed : s.field (k + 1) = s.field k)
    (habove : ∀ j ≤ k, s.gEnd < s.field j) : ¬ s.Ends := by
  have hlater (j : ℕ) : s.field (k + j) = s.field k := by
    induction j with
    | zero => rfl
    | succ j ih =>
      show s.field (k + j) * s.tau = s.field k
      rw [ih]
      exact hfixed
  rintro ⟨n, hn⟩
  rcases le_total n k with hle | hle
  · exact hn (habove n hle)
  · obtain ⟨j, rfl⟩ := Nat.exists_eq_add_of_le hle
    rw [hlater] at hn
    exact hn (habove k le_rfl)

end

section Float
open Float64
variable {s : Schedule Float}

/-- The least number whose significand has all its bits. -/
def leastNormal : Float := .ofBits 0x0010000000000000

theorem isNonneg_zero : IsNonneg Scalar.zero := by
  show rank Scalar.zero ≤ infinityRank
  decide

theorem isNonneg_of_pos {x : Float} (h : Scalar.zero < x) : IsNonneg x :=
  isNonneg_of_lt isNonneg_zero h

theorem rank_pos {x : Float} (h : Scalar.zero < x) : 0 < rank x :=
  (show rank Scalar.zero = 0 by decide) ▸
    (lt_iff_rank_lt isNonneg_zero (isNonneg_of_pos h)).mp h

variable (hv : s.validate = .ok ())
include hv

theorem isNonneg_gEnd : IsNonneg s.gEnd := isNonneg_of_pos (validate_eq_ok_iff.mp hv).1

theorem rank_mul_tau {x : Float} (hx : IsNonneg x) : rank (x * s.tau) ≤ rank x ∧
    (2 ^ 52 < rank x → rank x < infinityRank → rank (x * s.tau) < rank x) := by
  obtain ⟨-, -, ⟨hpos, hone⟩, -⟩ := validate_eq_ok_iff.mp hv
  have hrank : rank (Scalar.one : Float) = 1023 * 2 ^ 52 := by decide
  have hone' : IsNonneg Scalar.one := hrank.trans_le (by decide)
  refine rank_mul hx (isNonneg_of_pos hpos) (rank_pos hpos) ?_
  rw [← hrank]
  exact (lt_iff_rank_lt (isNonneg_of_pos hpos) hone').mp hone

theorem isNonneg_field (k : ℕ) : IsNonneg (s.field k) := by
  induction k with
  | zero => exact isNonneg_of_lt (isNonneg_gEnd hv) (validate_eq_ok_iff.mp hv).2.1
  | succ k ih => exact (rank_mul_tau hv ih).1.trans ih

theorem antitone_rank_field : Antitone fun k => rank (s.field k) :=
  antitone_nat_of_succ_le fun k => (rank_mul_tau hv (isNonneg_field hv k)).1

theorem above_iff (k : ℕ) : s.gEnd < s.field k ↔ rank s.gEnd < rank (s.field k) :=
  lt_iff_rank_lt (isNonneg_gEnd hv) (isNonneg_field hv k)

theorem not_ends_of_stalls (h : s.Stalls) : ¬ s.Ends := by
  obtain ⟨k, habove, hfixed⟩ := h
  refine not_ends_of_fixed hfixed fun j hj => (above_iff hv j).mpr ?_
  exact ((above_iff hv k).mp habove).trans_le (antitone_rank_field hv hj)

theorem not_ends_of_gStart_fixed (hfixed : s.gStart * s.tau = s.gStart) : ¬ s.Ends :=
  not_ends_of_stalls hv ⟨0, (validate_eq_ok_iff.mp hv).2.1, hfixed⟩

/-- Until it ends, a schedule that does not stall goes down by a pattern or more at each step. -/
theorem rank_field_add_le (hstalls : ¬ s.Stalls) {n : ℕ} (habove : ∀ k < n, s.gEnd < s.field k) :
    rank (s.field n) + n ≤ rank s.gStart := by
  induction n with
  | zero => exact le_rfl
  | succ n ih =>
    have hbefore := ih fun k hk => habove k (hk.trans n.lt_succ_self)
    have hle : rank (s.field (n + 1)) ≤ rank (s.field n) := antitone_rank_field hv n.le_succ
    have hne : rank (s.field (n + 1)) ≠ rank (s.field n) := fun heq =>
      hstalls ⟨n, habove n n.lt_succ_self, rank_injective heq⟩
    omega

theorem ends_iff_not_stalls : s.Ends ↔ ¬ s.Stalls := by
  constructor
  · exact fun hends hstalls => not_ends_of_stalls hv hstalls hends
  · intro hstalls
    by_contra hends
    have habove (k : ℕ) : s.gEnd < s.field k := not_not.mp fun hk => hends ⟨k, hk⟩
    have := rank_field_add_le hv hstalls (n := rank s.gStart + 1) fun k _ => habove k
    omega

/-- The number of steps that the fields of a schedule are computed for is enough. -/
theorem fields_eq_of_endsAfter {n : ℕ} (h : s.EndsAfter n) :
    s.fields = (List.range n).map s.field := by
  have hstalls := (ends_iff_not_stalls hv).mp ⟨n, h.2⟩
  refine fieldsUpTo_eq h ?_
  show n ≤ rank s.gStart - rank s.gEnd + 1
  rcases Nat.eq_zero_or_pos n with rfl | hn
  · exact Nat.zero_le _
  · have hlast := (above_iff hv (n - 1)).mp (h.1 (n - 1) (by omega))
    have := rank_field_add_le hv hstalls (n := n - 1) fun k hk => h.1 k (by omega)
    omega

/-- Between the least normal number and infinity the fields shrink at every step. -/
theorem ends_of_normal (hstart : Scalar.isBounded s.gStart = true)
    (hend : ¬ s.gEnd < leastNormal) : s.Ends := by
  refine (ends_iff_not_stalls hv).mpr ?_
  rintro ⟨k, habove, hfixed⟩
  have hstart : s.field 0 < 1.0 / 0.0 := of_decide_eq_true hstart
  have hinfinity : rank (1.0 / 0.0) = infinityRank := by decide
  have hnormal : rank leastNormal = 2 ^ 52 := by decide
  rw [lt_iff_rank_lt (isNonneg_field hv 0) hinfinity.le, hinfinity] at hstart
  rw [lt_iff_rank_lt (isNonneg_gEnd hv) (hnormal.trans_le (by decide)), hnormal, not_lt] at hend
  have hlow := hend.trans_lt ((above_iff hv k).mp habove)
  have hhigh := (antitone_rank_field hv (Nat.zero_le k)).trans_lt hstart
  have hshrinks := (rank_mul_tau hv (isNonneg_field hv k)).2 hlow hhigh
  exact hshrinks.ne (congrArg rank hfixed)

omit hv in
theorem validate_standard : (standard : Schedule Float).validate = .ok () :=
  validate_eq_ok_iff.mpr (by decide)

end Float

end Qubo.Schedule

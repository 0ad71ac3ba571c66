import Mathlib.Tactic
import Qubo.Proofs.Exact
import Qubo.Proofs.Schedule.Decay

/-! Accepted schedules of exact numbers: their fields shrink by a constant ratio, so that each of
them ends, and none of its fields is cut off. -/
namespace Qubo.Schedule
variable {s : Schedule ℚ}

theorem field_eq_mul_pow (k : ℕ) : s.field k = s.gStart * s.tau ^ k := by
  induction k with
  | zero => simp [field]
  | succ k ih =>
    show s.field k * s.tau = _
    rw [ih, pow_succ, mul_assoc]

/-- Bernoulli's inequality, for powers of the reciprocal. -/
theorem pow_mul_le_one {r : ℚ} (hpos : 0 < r) (n : ℕ) :
    r ^ n * (1 + n * (1 - r)) ≤ 1 := by
  induction n with
  | zero => simp
  | succ n ih =>
    have hstep : r * (1 + (n + 1) * (1 - r)) ≤ 1 + n * (1 - r) := by
      have hn : (0 : ℚ) ≤ n := n.cast_nonneg
      nlinarith [mul_nonneg hn (sq_nonneg (1 - r)), sq_nonneg (1 - r)]
    calc r ^ (n + 1) * (1 + (n + 1 : ℕ) * (1 - r))
        = r ^ n * (r * (1 + (n + 1) * (1 - r))) := by push_cast; ring
      _ ≤ r ^ n * (1 + n * (1 - r)) := by gcongr
      _ ≤ 1 := ih

theorem field_decayBound_le (hv : s.validate = .ok ()) :
    s.field (Scalar.decayBound s.gStart s.gEnd s.tau) ≤ s.gEnd := by
  obtain ⟨hend, -, ⟨htau, hone⟩, -⟩ := validate_eq_ok_iff.mp hv
  rw [Scalar.zero_rat] at hend htau
  rw [Scalar.one_rat] at hone
  have hstep : 0 < s.gEnd * (1 - s.tau) := mul_pos hend (sub_pos.mpr hone)
  obtain ⟨n, hn⟩ : ∃ n, n = Scalar.decayBound s.gStart s.gEnd s.tau := ⟨_, rfl⟩
  have hbound : s.gStart ≤ n * (s.gEnd * (1 - s.tau)) := by
    rw [← div_le_iff₀ hstep]
    have hceil := Rat.le_ceil (x := s.gStart / (s.gEnd * (1 - s.tau)))
    have hnat : (s.gStart / (s.gEnd * (1 - s.tau))).ceil ≤ n := by
      rw [hn]
      exact (Int.self_le_toNat _).trans (by simp [Scalar.decayBound])
    exact hceil.trans (by exact_mod_cast hnat)
  have hpow : 0 < s.tau ^ n := pow_pos htau n
  rw [← hn, field_eq_mul_pow]
  calc s.gStart * s.tau ^ n
      ≤ n * (s.gEnd * (1 - s.tau)) * s.tau ^ n := by gcongr
    _ = s.gEnd * (s.tau ^ n * (1 + n * (1 - s.tau))) - s.gEnd * s.tau ^ n := by ring
    _ ≤ s.gEnd * 1 - s.gEnd * s.tau ^ n := by
      gcongr
      exact pow_mul_le_one htau n
    _ ≤ s.gEnd := by
      have := mul_pos hend hpow
      linarith

theorem runsOut_of_validate (hv : s.validate = .ok ()) : s.RunsOut := by
  have hlast := not_lt.mpr (field_decayBound_le hv)
  obtain ⟨n, hn⟩ := Ends.exists_endsAfter ⟨_, hlast⟩
  refine ⟨n, hn, fieldsUpTo_eq hn ?_⟩
  by_contra hlt
  exact hlast (hn.1 _ (not_le.mp hlt))

/-- The shape of a schedule of `n` steps: its fields are the start value times the powers of the
ratio, down to the first that is not above the end value. -/
structure Descends (s : Schedule ℚ) (n : ℕ) : Prop where
  least : IsLeast {k | s.gStart * s.tau ^ k ≤ s.gEnd} n
  pos : 1 ≤ n
  fields : s.fields = (List.range n).map fun k => s.gStart * s.tau ^ k
  decreasing : s.fields.Pairwise (· > ·)
  above : ∀ g ∈ s.fields, s.gEnd < g
  stepCount : s.stepCount = n

theorem strictAnti_mul_pow (hv : s.validate = .ok ()) :
    StrictAnti fun k : ℕ => s.gStart * s.tau ^ k := by
  obtain ⟨hend, hstart, ⟨htau, hone⟩, -⟩ := validate_eq_ok_iff.mp hv
  rw [Scalar.zero_rat] at hend htau
  rw [Scalar.one_rat] at hone
  exact (pow_right_strictAnti₀ htau hone).const_mul (hend.trans hstart)

theorem exists_descends_of_validate (hv : s.validate = .ok ()) : ∃ n, s.Descends n := by
  obtain ⟨n, ⟨habove, hlast⟩, hfields⟩ := runsOut_of_validate hv
  simp only [field_eq_mul_pow] at habove hlast
  rw [show s.field = fun k => s.gStart * s.tau ^ k from funext field_eq_mul_pow] at hfields
  refine ⟨n, ⟨not_lt.mp hlast, fun k hk => ?_⟩, ?_, hfields, ?_, ?_, ?_⟩
  · by_contra hlt
    exact absurd (habove k (not_le.mp hlt)) (not_lt.mpr hk)
  · rw [Nat.one_le_iff_ne_zero]
    rintro rfl
    obtain ⟨-, hstart, -⟩ := validate_eq_ok_iff.mp hv
    exact hlast (by simpa using hstart)
  · rw [hfields, List.pairwise_map]
    exact List.pairwise_lt_range.imp fun hlt => strictAnti_mul_pow hv hlt
  · rw [hfields, List.forall_mem_map]
    exact fun k hk => habove k (List.mem_range.mp hk)
  · rw [stepCount, hfields, List.length_map, List.length_range]

/-- A field that is the end value is not taken a step at. -/
example : (⟨1, 1 / 8, 1 / 2, 1, none⟩ : Schedule ℚ).fields = [1, 1 / 2, 1 / 4] := by
  decide +kernel

end Qubo.Schedule

import Mathlib.Tactic
import Qubo.Schedule

/-! Which anneal schedules are accepted. -/
namespace Qubo.Schedule
variable {α : Type} [Scalar α]

theorem validate_eq_ok_iff {s : Schedule α} :
    s.validate = .ok () ↔ Scalar.zero < s.gEnd ∧ s.gEnd < s.gStart ∧
      (Scalar.zero < s.tau ∧ s.tau < Scalar.one) ∧ Scalar.zero < s.kt ∧ s.trotters ≠ some 0 := by
  unfold validate
  split_ifs with h1 h2 h3 h4 h5
  all_goals simp_all

end Qubo.Schedule

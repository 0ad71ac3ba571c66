import Mathlib.Tactic
import Qubo.Outcome
import Qubo.Proofs.Direction
import Qubo.Proofs.Exact

/-! The best of several values: one of them that none of the others beats. The outcome of a run
reports the best of its candidates. -/
namespace Qubo
namespace Direction

theorem atLeast_rat (d : Direction) (a b : ℚ) : d.AtLeast a b ↔ d.sign a ≤ d.sign b := by
  cases d with
  | minimize => exact Iff.rfl
  | maximize => exact neg_le_neg_iff.symm

theorem best?_rat (d : Direction) {xs : List ℚ} (hxs : xs ≠ []) :
    ∃ b ∈ xs, d.best? xs = some b ∧ ∀ x ∈ xs, d.sign b ≤ d.sign x := by
  obtain ⟨b, hmem, hbest, hle⟩ := d.exists_best?_atLeast hxs
  exact ⟨b, hmem, hbest, fun x hx => (d.atLeast_rat b x).mp (hle x hx)⟩

end Direction

namespace Outcome

theorem exists_steps_of_collect {α : Type} [LT α] [DecidableLT α] (d : Direction)
    {candidates : List (Keyed α Assignment)} (h : candidates ≠ []) (steps : ℕ) :
    ∃ outcome, collect d candidates steps = .ok outcome ∧ outcome.steps = steps := by
  obtain ⟨best, hbest⟩ := d.exists_best? h
  exact ⟨_, by rw [collect, hbest], rfl⟩

/-- A run with candidates reports one that no other beats. -/
theorem exists_collect_eq_ok (d : Direction) (candidates : List (Keyed ℚ Assignment))
    (h : candidates ≠ []) (steps : ℕ) : ∃ outcome, collect d candidates steps = .ok outcome ∧
      ⟨outcome.bestEnergy, outcome.best⟩ ∈ candidates ∧
      ∀ c ∈ candidates, d.sign outcome.bestEnergy ≤ d.sign c.key := by
  obtain ⟨best, hmem, hbest, hle⟩ := d.exists_best?_atLeast h
  refine ⟨_, by rw [collect, hbest], hmem, fun c hc => (d.atLeast_rat best.key c.key).mp ?_⟩
  cases d <;> exact hle c hc

end Outcome

end Qubo

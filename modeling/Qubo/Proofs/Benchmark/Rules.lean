import Mathlib.Tactic
import Qubo.CommandLine.Program
import Qubo.Proofs.Benchmark.Run

/-! The rules of a configuration in a list: its check reports the first broken one. What a check
settles stays settled, also when the command line overrides something. -/
namespace Qubo.Benchmark

/-- A rule with what is reported when it is broken. -/
structure Rule where
  violation : Violation
  broken : Prop

/-- What is reported of rules that are gone through in order. -/
inductive Judged : List Rule → Except Violation Unit → Prop
  | nil : Judged [] (.ok ())
  | kept {r : Rule} {rs : List Rule} {x : Except Violation Unit} :
    ¬ r.broken → Judged rs x → Judged (r :: rs) x
  | broken {r : Rule} {rs : List Rule} : r.broken → Judged (r :: rs) (.error r.violation)

namespace Judged
variable {rs rs' : List Rule} {x y : Except Violation Unit}

/-- Later rules are only gone through if all before them are kept. -/
theorem append (h : Judged rs x) (h' : x = .ok () → Judged rs' y) :
    Judged (rs ++ rs') (x >>= fun _ => y) := by
  induction h with
  | nil => exact h' rfl
  | kept hkept _ ih => exact .kept hkept (ih h')
  | broken hbroken => exact .broken hbroken

theorem ite {v : Violation} {p q : Prop} [Decidable p] (hpq : q ↔ p) (h : ¬ p → Judged rs x) :
    Judged (⟨v, q⟩ :: rs) (if p then .error v else x) := by
  split_ifs with hp
  · exact .broken (r := ⟨v, q⟩) (hpq.mpr hp)
  · exact .kept (mt hpq.mp hp) (h hp)

end Judged

def IsBlank (s : String) : Prop := ∀ c ∈ s.toList, Text.isBlank c = true

end Qubo.Benchmark

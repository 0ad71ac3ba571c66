import Qubo.Direction
import Qubo.Outcome

/-!
Trials: what every solver reached on one problem instance from one seed, and how far each is
from the best of them.
-/
namespace Qubo.Benchmark
variable {α : Type} [Scalar α]

structure SolverResult (α : Type) where
  solver : String
  strategy : Strategy
  energy : α
  assignment : Assignment
  /-- How many candidates the solver listed. -/
  candidates : Nat
  steps : Nat
  elapsedMs : α
  deriving DecidableEq, Repr

structure Trial (α : Type) where
  /-- The best energy that any solver reached. -/
  bestKnown : α
  results : List (SolverResult α)
  deriving DecidableEq, Repr

namespace Trial

@[specialize] def ofResults (d : Direction) (results : List (SolverResult α)) :
    Except SolverError (Trial α) :=
  match d.best? (results.map (·.energy)) with
  | none => .error .empty
  | some best => .ok ⟨best, results⟩

/-- How far an energy is from the best known one, never below zero. -/
@[specialize] def gap (t : Trial α) (d : Direction) (energy : α) : α :=
  Scalar.clampNegative (d.sign (energy - t.bestKnown))

end Trial

/-- Whether a gap is no gap. -/
@[specialize] def isHit (gap : α) : Bool := gap ≤ Scalar.tolerance

/-- A number with at least some digits. -/
def padded (width n : Nat) : String :=
  let digits := toString n
  String.ofList (List.replicate (width - digits.length) '0') ++ digits

/-- The name of a trial: the numbers of its instance and of the trial within. -/
def trialId (instanceIndex trialIndex : Nat) : String :=
  s!"I{padded 5 instanceIndex}_T{padded 2 trialIndex}"

end Qubo.Benchmark

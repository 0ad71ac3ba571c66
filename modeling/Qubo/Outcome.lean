import Qubo.Bits
import Qubo.Kind
import Qubo.SolverError

/-!
What a solver reports: its candidates with the best of them, and the events it leaves in the log.
-/
namespace Qubo

/-- Numbers of variables per layer. -/
inductive Extent where
  | dense (n : Nat)
  | bipartite (n0 n1 : Nat)
  deriving DecidableEq, Repr

namespace Extent

def graph : Extent → Graph
  | .dense _ => .dense
  | .bipartite _ _ => .rbm

def variableCount : Extent → Nat
  | .dense n => n
  | .bipartite n0 n1 => n0 + n1

end Extent

structure Outcome (α : Type) where
  /-- One energy per candidate: per trotter slice, or per tied optimum. -/
  energies : List α
  solutions : List Assignment
  bestEnergy : α
  best : Assignment
  /-- Anneal steps taken; none in an exhaustive search. -/
  steps : Nat
  deriving DecidableEq, Repr

/-- The outcome of a list of candidates: the first one that no other beats is the best. -/
@[specialize] def Outcome.collect {α : Type} [LT α] [DecidableLT α] (d : Direction)
    (candidates : List (Keyed α Assignment)) (steps : Nat) : Except SolverError (Outcome α) :=
  match d.best? candidates with
  | none => .error .empty
  | some best => .ok {
      energies := candidates.map (·.key)
      solutions := candidates.map (·.tag)
      bestEnergy := best.key
      best := best.tag
      steps := steps }

inductive SolverEvent (α : Type) where
  | created (graph : Graph) (strategy : Strategy) (direction : Direction) (variableCount : Nat)
  /-- An exhaustive search has ended; it has no best energy if it kept no assignment. -/
  | searched (extent : Extent) (direction : Direction) (bestEnergy : Option α) (optima : Nat)
  | annealed (extent : Extent) (direction : Direction) (trotters : Nat) (bestEnergy : Option α)
  deriving DecidableEq, Repr

/-- A solver after a complete run, what the run gave, and the events it left. -/
structure Solved (σ α : Type) where
  solver : σ
  result : Except SolverError (Outcome α)
  events : List (SolverEvent α)

end Qubo

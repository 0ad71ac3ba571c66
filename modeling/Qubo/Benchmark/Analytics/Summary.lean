import Qubo.Benchmark.Analytics.Collector
import Qubo.Statistics.Mean
import Qubo.Statistics.SignedRank

/-!
The summary of a benchmark: a report for each solver, and how it compares with the baseline.
-/
namespace Qubo.Benchmark
open Statistics
variable {α : Type} [Scalar α]

/-- What one solver has reached over all trials. -/
structure SolverReport (α : Type) where
  solver : String
  strategy : Strategy
  trials : Nat
  meanEnergy : α
  confidence : α × α
  hits : Nat
  meanGap : α
  averageMs : α
  averageSteps : α
  /-- How much worse the mean energy is than the baseline's. -/
  delta : α
  overBudget : Bool

structure Comparison (α : Type) where
  solver : String
  verdict : SignedRank.Verdict α

structure Summary (α : Type) where
  baseline : String
  direction : Direction
  budgetMs : Nat
  reports : List (SolverReport α)
  /-- One for each report, in the same order. -/
  comparisons : List (Comparison α)

namespace Account

@[specialize] def meanEnergy (a : Account α) : α := mean a.energies.toList

@[specialize] def report [Transcendental α] (d : Direction) (budgetMs : Nat) (baselineMean : α)
    (a : Account α) : SolverReport α :=
  let trials := a.energies.size
  let averageMs := share a.totalMs trials
  { solver := a.solver
    strategy := a.strategy
    trials := trials
    meanEnergy := a.meanEnergy
    confidence := confidenceInterval a.energies.toList
    hits := a.hits.toNat
    meanGap := share a.totalGap trials
    averageMs := averageMs
    averageSteps := share (a.totalSteps.toNat : α) trials
    delta := d.sign (a.meanEnergy - baselineMean)
    overBudget := (budgetMs : α) < averageMs }

end Account

namespace Collector

/-- The differences of a solver, none if it has not been compared yet. -/
def differencesOf (c : Collector α) (solver : String) : List α :=
  ((c.differences.find? (·.solver == solver)).map (·.values.toList)).getD []

/-- The baseline is no different from itself in any of its trials. -/
@[specialize] def comparison [Transcendental α] [NormalLaw α] (c : Collector α) (a : Account α) :
    Comparison α :=
  if a.solver = c.baseline then ⟨a.solver, Scalar.one, a.energies.size⟩
  else ⟨a.solver, SignedRank.test (c.differencesOf a.solver)⟩

/-- The mean energy of the baseline; zero if it is not configured. -/
@[specialize] def baselineMean (c : Collector α) : α :=
  ((c.accounts.find? (·.solver == c.baseline)).map Account.meanEnergy).getD Scalar.zero

@[specialize] def summary [Transcendental α] [NormalLaw α] (c : Collector α) : Summary α where
  baseline := c.baseline
  direction := c.direction
  budgetMs := c.budgetMs
  reports := c.accounts.map (Account.report c.direction c.budgetMs c.baselineMean)
  comparisons := c.accounts.map c.comparison

end Collector

end Qubo.Benchmark

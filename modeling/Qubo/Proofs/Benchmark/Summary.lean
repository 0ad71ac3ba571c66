import Mathlib.Tactic
import Qubo.Benchmark.Analytics.Summary
import Qubo.Proofs.Benchmark.Rounds
import Qubo.Proofs.Benchmark.Written
import Qubo.Proofs.Exact
import Qubo.Proofs.Float.Finite
import Qubo.Proofs.Outcome
import Qubo.Proofs.Schedule.Exact
import Qubo.Proofs.Statistics.Mean
import Qubo.Proofs.Statistics.SignedRank

/-! The summary of a run against its rows: what each solver is reported to have reached is what its
rows say, and its gaps are measured from the best row of each trial. -/
namespace Qubo.Benchmark
open Scalar Statistics

section Reports
variable {α : Type} [Scalar α]

/-- A report that agrees with some rows. Totals are taken in the order of the rows; hits and steps
are counted as words do. -/
structure SolverReport.Agrees (report : SolverReport α) (rows : List (Row α)) : Prop where
  trials : report.trials = rows.length
  hits : report.hits = rows.countP (·.hit) % UInt32.size
  meanEnergy : report.meanEnergy = mean (rows.map (·.result.energy))
  meanGap : report.meanGap = share ((rows.map (·.gap)).foldl (· + ·) zero) rows.length
  averageMs : report.averageMs =
    share ((rows.map (·.result.elapsedMs)).foldl (· + ·) zero) rows.length
  averageSteps : report.averageSteps =
    share (((rows.map (·.result.steps)).sum % UInt64.size : ℕ) : α) rows.length

/-- A summary with a report for each solver of a configuration, in their order, that agrees with
its rows, and a comparison for each report. -/
structure Summary.Agrees (s : Summary α) (c : Config) (rows : List (Row α)) : Prop where
  solvers : s.reports.map (fun report => (report.solver, report.strategy)) =
    c.solvers.map fun solver => (solver.name, solver.strategy)
  nodup : (s.reports.map (·.solver)).Nodup
  reports : ∀ report ∈ s.reports, report.Agrees (rowsOf report.solver rows)
  comparisons : List.Forall₂ (fun report comparison => comparison.solver = report.solver ∧
    comparison.verdict.sampleSize ≤ report.trials) s.reports s.comparisons

variable [Transcendental α]

end Reports

section Runs
variable {α : Type} [Scalar α] [Transcendental α] {c : Config} {bs : List (Blueprint α)}
  {rows : List (Row α)}

end Runs

section Exact

/-- In exact numbers the reported means are the averages of the rows, that of the steps as long as a
word counts them. -/
theorem SolverReport.Agrees.averages {report : SolverReport ℚ} {rows : List (Row ℚ)}
    (h : report.Agrees rows) :
    report.meanEnergy = (rows.map (·.result.energy)).sum / rows.length ∧
    report.meanGap = (rows.map (·.gap)).sum / rows.length ∧
    report.averageMs = (rows.map (·.result.elapsedMs)).sum / rows.length ∧
    ((rows.map (·.result.steps)).sum < UInt64.size →
      report.averageSteps = (rows.map fun row => (row.result.steps : ℚ)).sum / rows.length) := by
  have htotal (xs : List ℚ) : xs.foldl (· + ·) zero = xs.sum := by
    rw [zero_rat, List.sum_eq_foldl]
  refine ⟨?_, ?_, ?_, fun hsmall => ?_⟩
  · rw [h.meanEnergy, mean_rat, List.length_map]
  · rw [h.meanGap, share_rat, htotal]
  · rw [h.averageMs, share_rat, htotal]
  · rw [h.averageSteps, share_rat, Nat.mod_eq_of_lt hsmall]
    push_cast
    rw [List.map_map]
    rfl

end Exact

end Qubo.Benchmark

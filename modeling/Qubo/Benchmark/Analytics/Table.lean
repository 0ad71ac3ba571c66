import Qubo.Benchmark.Analytics.Summary
import Qubo.Decimal.Places

/-!
The summary as a Markdown table.
-/
namespace Qubo.Benchmark
open Decimal

namespace Summary

def pValue (s : Summary Float) (solver : String) : Float :=
  ((s.comparisons.find? (·.solver == solver)).map (·.verdict.pValue)).getD 1.0

/-- Hits for each hundred trials. -/
def hitPercent (r : SolverReport Float) : Float :=
  (if r.trials = 0 then 0.0 else Float.ofNat r.hits / Float.ofNat r.trials) * 100.0

def headings : List String :=
  ["Solver", "Kind", "Trials", "Mean energy", "Δ vs baseline", "95% CI", "Hit %", "Mean gap",
    "Avg steps", "Avg ms/solve", "Over Budget", "p-value"]

/-- The widths of the dashes below the headings. -/
def ruleWidths : List Nat := [8, 6, 8, 13, 16, 8, 7, 10, 11, 14, 13, 9]

def cells (s : Summary Float) (r : SolverReport Float) : List String :=
  [r.solver, r.strategy.name, toString r.trials, fixed 4 r.meanEnergy, fixedWithSign 4 r.delta,
    s!"[{fixed 4 r.confidence.1}, {fixed 4 r.confidence.2}]", s!"{fixed 1 (hitPercent r)}%",
    fixed 4 r.meanGap, fixed 0 r.averageSteps, fixed 2 r.averageMs,
    if r.overBudget then "Yes" else "No", fixed 3 (s.pValue r.solver)]

def row (cells : List String) : String := "| " ++ " | ".intercalate cells ++ " |\n"

def rule : String :=
  "|" ++ "|".intercalate (ruleWidths.map fun w => String.ofList (List.replicate w '-')) ++ "|\n"

def markdown (s : Summary Float) : String :=
  "# Benchmark Summary\n\n" ++
    s!"Direction: {s.direction.name}. Time budget: {s.budgetMs} ms average per solve\n\n" ++
    row headings ++ rule ++ String.join (s.reports.map fun r => row (s.cells r))

end Summary

end Qubo.Benchmark

import Qubo.Decimal.Places
import Qubo.Json.Writer
import Qubo.Telemetry.Summary

/-!
Summaries of logs as JSON and as Markdown.
-/
namespace Qubo.Telemetry
open Decimal

def ofAverage (a : Average Float) : Json := (a.mean?.map Json.ofFloat).getD .null

def ofLabels (labels : List (String × Nat)) : Json :=
  .object (labels.map fun (label, n) => (label, Json.ofNat n))

def GroupSummary.toJson (s : GroupSummary Float) (first second labels : String) : Json :=
  .object [("count", Json.ofNat s.count), (first, ofAverage s.first), (second, ofAverage s.second),
    (labels, ofLabels s.labels)]

/-- A line for an average, unless there is none. -/
def averageLine (name : String) (places : Nat) (a : Average Float) : String :=
  match a.mean? with
  | none => ""
  | some x => s!"- {name}: {fixed places x}\n"

def countLine (name : String) (n : Nat) : String := s!"- {name}: {n}\n"

/-- The labels below a heading, unless there are none. -/
def labelLines (heading : String) (labels : List (String × Nat)) : String :=
  if labels.isEmpty then ""
  else s!"- {heading}:\n" ++ String.join (labels.map fun (label, n) => s!"  - {label}: {n}\n")

namespace Summary

def toJson (s : Summary Float) : Json :=
  .object [
    ("anneal", s.anneal.toJson "avg_trotters" "avg_best_energy" "graph_counts"),
    ("search", s.search.toJson "avg_optima" "avg_best_energy" "graph_counts"),
    ("trials", s.trials.toJson "avg_elapsed_ms" "avg_gap" "solver_counts")]

def markdown (s : Summary Float) (path : String) : String :=
  "# Telemetry Summary\n\n" ++ s!"- Source: \x60{path}\x60\n" ++
    "\n## Trials\n" ++ countLine "Events" s.trials.count ++
    averageLine "Avg ms per solve" 2 s.trials.first ++
    averageLine "Avg gap to best known" 4 s.trials.second ++
    labelLines "Solvers" s.trials.labels ++
    "\n## Annealing\n" ++ countLine "Events" s.anneal.count ++
    averageLine "Avg trotters" 1 s.anneal.first ++
    averageLine "Avg best energy" 4 s.anneal.second ++
    labelLines "Graphs" s.anneal.labels ++
    "\n## Exhaustive Search\n" ++ countLine "Events" s.search.count ++
    averageLine "Avg tied optima" 2 s.search.first ++
    averageLine "Avg best energy" 4 s.search.second ++
    labelLines "Graphs" s.search.labels

/-- The section that is added to the summary of the benchmark. -/
def highlights (s : Summary Float) : String :=
  "\n## Telemetry Highlights\n" ++ countLine "Trial events captured" s.trials.count ++
    averageLine "Avg ms per solve" 2 s.trials.first ++
    averageLine "Avg gap to best known" 4 s.trials.second ++
    countLine "Anneal runs logged" s.anneal.count ++
    averageLine "Avg trotters" 1 s.anneal.first ++
    countLine "Exhaustive searches logged" s.search.count ++
    averageLine "Avg tied optima" 2 s.search.first

end Summary

end Qubo.Telemetry

import Qubo.Outcome

/-!
Log records: a target, a level and named fields, and the record of each solver event.
-/
namespace Qubo

/-- Severity of a log record, from the most talkative. -/
inductive Level where
  | trace
  | debug
  | info
  | warn
  | error
  deriving DecidableEq, Repr

namespace Level

def name : Level → String
  | .trace => "TRACE"
  | .debug => "DEBUG"
  | .info => "INFO"
  | .warn => "WARN"
  | .error => "ERROR"

def severity : Level → Nat
  | .trace => 0
  | .debug => 1
  | .info => 2
  | .warn => 3
  | .error => 4

/-- Whether a record of level `l` passes when records below `least` are dropped. -/
def passes (least l : Level) : Bool := least.severity ≤ l.severity

end Level

namespace Log

inductive Value where
  | text (s : String)
  | count (n : Nat)
  | real (x : Float)
  | flag (b : Bool)

structure Record where
  target : String
  level : Level
  fields : List (String × Value)

structure Filter where
  /-- Records below it are dropped. -/
  least : Level
  /-- Whether the solvers' own records are kept. -/
  solverDetails : Bool
  deriving DecidableEq, Repr

def factoryTarget : String := "sqaod::factory"
def searchTarget : String := "sqaod::search"
def annealTarget : String := "sqaod::anneal"
def trialTarget : String := "sqaod_bench::trial"
def runTarget : String := "sqaod_bench::run"

/-- The targets of the solvers' own records. -/
def solverTargets : List String := [annealTarget, searchTarget, factoryTarget]

def Filter.keeps (f : Filter) (r : Record) : Bool :=
  f.least.passes r.level && (f.solverDetails || !solverTargets.contains r.target)

def extentFields : Extent → List (String × Value)
  | .dense n => [("n", .count n)]
  | .bipartite n0 n1 => [("n0", .count n0), ("n1", .count n1)]

/-- A search that has kept no assignment ends at the worst energy there is. -/
def searchEnergy (d : Direction) (best : Option Float) : Float :=
  best.getD (d.sign (1.0 / 0.0))

/-- The record of a solver event. An anneal without slices has no best energy. -/
def ofSolverEvent : SolverEvent Float → Record
  | .created graph strategy d count =>
    ⟨factoryTarget, .debug,
      [("graph", .text graph.name), ("solver", .text strategy.name), ("method", .text d.name),
        ("variables", .count count)]⟩
  | .searched extent d best optima =>
    ⟨searchTarget, .info,
      [("graph", .text extent.graph.name), ("method", .text d.name)] ++ extentFields extent ++
        [("best_energy", .real (searchEnergy d best)), ("optima", .count optima)]⟩
  | .annealed extent d trotters best =>
    ⟨annealTarget, .info,
      [("graph", .text extent.graph.name), ("method", .text d.name)] ++ extentFields extent ++
        [("trotters", .count trotters)] ++
        (best.map fun e => ("best_energy", .real e)).toList⟩

end Log

end Qubo

import Qubo.Kind
import Qubo.Log
import Qubo.Yaml.Value

/-!
The configuration of a benchmark: the random problems, the solvers to compare, the files to
write, what to measure against, and what to log.
-/
namespace Qubo.Benchmark

/-- The random problem instances that every solver is run on. -/
structure ProblemSection where
  graph : Graph
  /-- Variables of a dense graph, or of the first layer of a bipartite one. -/
  n0 : Nat
  n1 : Nat
  seed : Option UInt64
  instances : Nat
  trials : Nat
  direction : Direction
  deriving DecidableEq, Repr

/-- How many variables an instance has. -/
def ProblemSection.size (p : ProblemSection) : Nat :=
  match p.graph with
  | .rbm => p.n0 + p.n1
  | _ => p.n0

/-- The size as a machine word counts it: layers that together exceed one are counted from zero
again. -/
def ProblemSection.variableCount (p : ProblemSection) : Nat := p.size % UInt64.size

structure SolverSection where
  name : String
  strategy : Strategy
  /-- Overrides of the anneal schedule, as they are written. -/
  params : Yaml.Value
  deriving Repr

/-- The files to write, with a placeholder for the name of the run. -/
structure OutputSection where
  rows : String
  summary : String
  plots : String
  deriving DecidableEq, Repr

structure MetricSection where
  /-- The solver that the others are compared with. -/
  baseline : Option String
  /-- The average time per solve that is not yet too long. -/
  budgetMs : Nat
  deriving DecidableEq, Repr

/-- The time budget when none is given. -/
def defaultBudgetMs : Nat := 1000

def MetricSection.standard : MetricSection := ⟨none, defaultBudgetMs⟩

structure LogSection where
  enabled : Bool
  /-- The name of the least level to log, as it is written. -/
  levelName : String
  /-- Whether the events of the solvers themselves are logged. -/
  solverDetails : Bool
  deriving DecidableEq, Repr

def defaultLevelName : String := "info"

def LogSection.standard : LogSection := ⟨false, defaultLevelName, false⟩

/-- The level of a name in any case. -/
def LogSection.level? (l : LogSection) : Option Level :=
  match Text.lower l.levelName with
  | "trace" => some .trace
  | "debug" => some .debug
  | "info" => some .info
  | "warn" | "warning" => some .warn
  | "error" => some .error
  | _ => none

structure Config where
  runId : String
  problem : ProblemSection
  solvers : List SolverSection
  outputs : OutputSection
  metrics : MetricSection
  logging : LogSection
  deriving Repr

/-- A template with the name of the run at its placeholders. -/
def resolveChars (runId : List Char) : List Char → List Char
  | '\x7b' :: 'r' :: 'u' :: 'n' :: '_' :: 'i' :: 'd' :: '\x7d' :: cs =>
    runId ++ resolveChars runId cs
  | c :: cs => c :: resolveChars runId cs
  | [] => []

def resolve (runId template : String) : String :=
  String.ofList (resolveChars runId.toList template.toList)

def Config.outputPaths (c : Config) : OutputSection where
  rows := resolve c.runId c.outputs.rows
  summary := resolve c.runId c.outputs.summary
  plots := resolve c.runId c.outputs.plots

end Qubo.Benchmark

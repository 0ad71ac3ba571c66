import Qubo.Benchmark.Config

/-!
The rules that a configuration has to keep. They are checked in a fixed order, and the first one
that is broken is reported. On the way, what is left blank is settled: parameters that are not
given become an empty mapping, and a blank level the default one.
-/
namespace Qubo.Benchmark

/-- The outputs by the names of their fields. -/
inductive OutputFile where
  | rows
  | summary
  | plots
  deriving DecidableEq, Repr

def OutputFile.field : OutputFile → String
  | .rows => "outputs.jsonl"
  | .summary => "outputs.summary_md"
  | .plots => "outputs.plots_dir"

inductive Violation where
  | blankRunId
  | runIdCharacters
  | noSolvers
  | blankSolverName
  | solverNameCharacters (name : String)
  | repeatedSolverName (name : String)
  | sparseGraph
  | noVariables
  | noSecondLayer
  | noInstances
  | noTrials
  | tooManyVariables (count : Nat)
  | blankOutput (file : OutputFile)
  | unresolvedOutput (file : OutputFile)
  | noBaseline
  | unknownBaseline (name : String)
  | noBudget
  deriving DecidableEq, Repr

/-- Looking at every assignment of more variables takes too long for a benchmark. -/
def maxSearchVariables : Nat := 24

namespace Violation

def field : Violation → String
  | .blankRunId | .runIdCharacters => "run_id"
  | .noSolvers | .repeatedSolverName _ => "solvers"
  | .blankSolverName => "solvers.name"
  | .solverNameCharacters name => s!"solvers[{name}].name"
  | .sparseGraph => "problem.graph"
  | .noVariables | .tooManyVariables _ => "problem.n0"
  | .noSecondLayer => "problem.n1"
  | .noInstances => "problem.instances"
  | .noTrials => "problem.trials"
  | .blankOutput file | .unresolvedOutput file => file.field
  | .noBaseline | .unknownBaseline _ => "metrics.baseline"
  | .noBudget => "metrics.time_budget_ms"

def rule : Violation → String
  | .blankRunId => "run_id must not be empty"
  | .runIdCharacters => "run_id may only contain alphanumeric characters, '.', '_' or '-'"
  | .noSolvers => "at least one solver must be specified"
  | .blankSolverName => "solver name must not be empty"
  | .solverNameCharacters _ => "solver name contains invalid characters"
  | .repeatedSolverName name => s!"solver name '{name}' defined more than once"
  | .sparseGraph => "sparse graphs have no solver; use 'dense' or 'rbm'"
  | .noVariables => "problem size must be greater than zero"
  | .noSecondLayer => "bipartite problems need at least one variable in layer 1"
  | .noInstances => "number of instances must be greater than zero"
  | .noTrials => "trials must be at least 1"
  | .tooManyVariables count =>
    s!"brute force solvers accept at most {maxSearchVariables} variables, problem has {count}"
  | .blankOutput _ => "path must not be empty"
  | .unresolvedOutput _ => "resolved path is invalid"
  | .noBaseline => "baseline solver must be specified"
  | .unknownBaseline name => s!"baseline solver '{name}' is not defined in solvers list"
  | .noBudget => "time budget must be greater than zero"

def message (v : Violation) : String := s!"{v.field}: {v.rule}"

end Violation

/-- Whether a character may stand in the name of a run or of a solver. -/
def isNameChar (c : Char) : Bool := c.isAlphanum || c == '.' || c == '_' || c == '-'

def checkRunId (runId : String) : Except Violation Unit :=
  if Text.isBlankText runId then .error .blankRunId
  else if !runId.toList.all isNameChar then .error .runIdCharacters
  else .ok ()

/-- Checks the name of a solver against those before it. -/
def checkName (before : List String) (name : String) : Except Violation Unit :=
  if Text.isBlankText name then .error .blankSolverName
  else if !name.toList.all isNameChar then .error (.solverNameCharacters name)
  else if before.contains name then .error (.repeatedSolverName name)
  else .ok ()

/-- A solver without parameters has an empty mapping of them. -/
def SolverSection.settled (s : SolverSection) : SolverSection :=
  if s.params.isNull then { s with params := .mapping [] } else s

/-- Checks solvers from left to right and settles those before the first broken rule. -/
def checkSolvers (before : List String) :
    List SolverSection → List SolverSection × Except Violation Unit
  | [] => ([], .ok ())
  | s :: rest =>
    match checkName before s.name with
    | .error v => (s :: rest, .error v)
    | .ok () =>
      let (settled, result) := checkSolvers (s.name :: before) rest
      (s.settled :: settled, result)

def checkProblem (p : ProblemSection) (solvers : List SolverSection) : Except Violation Unit :=
  if p.graph = .sparse then .error .sparseGraph
  else if p.n0 = 0 then .error .noVariables
  else if p.graph = .rbm ∧ p.n1 = 0 then .error .noSecondLayer
  else if p.instances = 0 then .error .noInstances
  else if p.trials = 0 then .error .noTrials
  else if solvers.any (·.strategy == .bruteForce) && maxSearchVariables < p.variableCount then
    .error (.tooManyVariables p.variableCount)
  else .ok ()

/-- Checks the template of an output, and the path that it becomes in a run. -/
def checkOutput (runId : String) (file : OutputFile) (template : String) : Except Violation Unit :=
  if Text.isBlankText template then .error (.blankOutput file)
  else if (resolve runId template).isEmpty then .error (.unresolvedOutput file)
  else .ok ()

def checkOutputs (runId : String) (o : OutputSection) : Except Violation Unit := do
  checkOutput runId .rows o.rows
  checkOutput runId .summary o.summary
  checkOutput runId .plots o.plots

def checkMetrics (m : MetricSection) (solvers : List SolverSection) : Except Violation Unit :=
  match m.baseline with
  | none => .error .noBaseline
  | some name =>
    if !solvers.any (·.name == name) then .error (.unknownBaseline name)
    else if m.budgetMs = 0 then .error .noBudget
    else .ok ()

def LogSection.settled (l : LogSection) : LogSection :=
  if Text.isBlankText l.levelName then { l with levelName := defaultLevelName } else l

/-- What checking a configuration leaves: the configuration with what was settled before the
first broken rule, and that rule. -/
structure Checked where
  config : Config
  result : Except Violation Unit

/-- Checks all rules: the name of the run, the solvers, the problem, the outputs, the metrics. -/
def Config.check (c : Config) : Checked :=
  match checkRunId c.runId with
  | .error v => ⟨c, .error v⟩
  | .ok () =>
    if c.solvers.isEmpty then ⟨c, .error .noSolvers⟩
    else
      let (solvers, result) := checkSolvers [] c.solvers
      let c := { c with solvers := solvers }
      let rest : Except Violation Unit := do
        result
        checkProblem c.problem solvers
        checkOutputs c.runId c.outputs
        checkMetrics c.metrics solvers
      match rest with
      | .error v => ⟨c, .error v⟩
      | .ok () => ⟨{ c with logging := c.logging.settled }, .ok ()⟩

end Qubo.Benchmark

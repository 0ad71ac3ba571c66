import Qubo.Benchmark.Config
import Qubo.Yaml.Field

/-!
Reading a configuration from YAML text.
-/
namespace Qubo.Benchmark
open Yaml

inductive Unreadable where
  | text (fault : Fault)
  | record (misfit : Misfit)
  deriving DecidableEq, Repr

def Unreadable.message : Unreadable → String
  | .text fault => fault.message
  | .record misfit => misfit.message

/-- The levels of collections that a solver's parameters may have; three more hold them. -/
def paramLevels : Nat := 125

def ProblemSection.ofNode (n : Node) : Except Misfit ProblemSection := do
  let r ← Record.ofNode "problem"
    ["graph", "n0", "n1", "seed", "instances", "trials", "optimize"] n
  return {
    graph := ← r.required "graph" fun n => n.name?.bind Graph.ofName?
    n0 := ← r.required "n0" Node.word?
    n1 := ← r.withDefault "n1" Node.word? 0
    seed := (← r.withDefault "seed" (Node.optional? Node.word?) none).map UInt64.ofNat
    instances := ← r.required "instances" Node.word?
    trials := ← r.withDefault "trials" Node.word? 1
    direction := ← r.withDefault "optimize" (fun n => n.name?.bind Direction.ofName?) .minimize }

def SolverSection.ofNode (n : Node) : Except Misfit SolverSection := do
  let r ← Record.ofNode "solvers" ["name", "kind", "params"] n
  return {
    name := ← r.required "name" Node.text?
    strategy := ← r.required "kind" fun n => n.name?.bind Strategy.ofName?
    params := ← r.withDefault "params" (fun n => (Value.ofNode paramLevels n).toOption) .null }

def OutputSection.ofNode (n : Node) : Except Misfit OutputSection := do
  let r ← Record.ofNode "outputs" ["jsonl", "summary_md", "plots_dir"] n
  return {
    rows := ← r.required "jsonl" Node.text?
    summary := ← r.required "summary_md" Node.text?
    plots := ← r.required "plots_dir" Node.text? }

def MetricSection.ofNode (n : Node) : Except Misfit MetricSection := do
  let r ← Record.ofNode "metrics" ["baseline", "time_budget_ms"] n
  return {
    baseline := ← r.withDefault "baseline" (Node.optional? Node.text?) none
    budgetMs := ← r.withDefault "time_budget_ms" Node.word? defaultBudgetMs }

def LogSection.ofNode (n : Node) : Except Misfit LogSection := do
  let r ← Record.ofNode "logging" ["enable_structured", "tracing_level", "solver_details"] n
  return {
    enabled := ← r.withDefault "enable_structured" Node.bool? false
    levelName := ← r.withDefault "tracing_level" Node.text? defaultLevelName
    solverDetails := ← r.withDefault "solver_details" Node.bool? false }

def readSection {β : Type} (r : Record) (name : String) (read : Node → Except Misfit β)
    (standard : Except Misfit β) : Except Misfit β :=
  match r.find? name with
  | none => standard
  | some n => read n

def Config.ofNode (n : Node) : Except Misfit Config := do
  let r ← Record.ofNode "configuration"
    ["run_id", "problem", "solvers", "outputs", "metrics", "logging"] n
  let solvers ← r.required "solvers" Node.items?
  return {
    runId := ← r.required "run_id" Node.text?
    problem := ← readSection r "problem" ProblemSection.ofNode (.error (.missing "problem"))
    solvers := ← solvers.mapM SolverSection.ofNode
    outputs := ← readSection r "outputs" OutputSection.ofNode (.error (.missing "outputs"))
    metrics := ← readSection r "metrics" MetricSection.ofNode (.ok .standard)
    logging := ← readSection r "logging" LogSection.ofNode (.ok .standard) }

def Config.ofText (text : String) : Except Unreadable Config :=
  match Node.read text with
  | .error fault => .error (.text fault)
  | .ok n =>
    match Config.ofNode n with
    | .error misfit => .error (.record misfit)
    | .ok c => .ok c

end Qubo.Benchmark

import Qubo.Benchmark.Config.Reading
import Qubo.Benchmark.Config.Rules
import Qubo.Benchmark.Execution
import Qubo.CommandLine.Help
import Qubo.Text.Quoted

/-!
The program: reads a configuration, applies what the command line overrides, carries the
benchmark out, and reports what it has written. Whatever stops it, the log keeps what was
recorded before.
-/
namespace Qubo.CommandLine
open Benchmark Files

inductive Failure where
  | unreadable (path : String) (fault : Files.Fault)
  | unparsable (path : String)
  | invalidFile (path : String) (violation : Violation)
  /-- A rule is broken by what the command line overrides. -/
  | invalid (violation : Violation)
  | logDirectory (path : String)
  | logFile (path : String)
  | benchmark (failure : Benchmark.Failure)
  deriving DecidableEq, Repr

def Failure.message : Failure → String
  | .unreadable path fault => s!"failed to read config {Text.quoted path}: {fault.message}"
  | .unparsable path => s!"failed to parse config {Text.quoted path}: it holds no configuration"
  | .invalidFile path violation =>
    s!"invalid configuration in {Text.quoted path}: {violation.message}"
  | .invalid violation => violation.message
  | .logDirectory path => s!"creating telemetry directory at {path}"
  | .logFile path => s!"creating telemetry file at {path}"
  | .benchmark failure => failure.message

inductive Ending where
  | success
  | misuse (m : Misuse)
  | failure (f : Failure)
  deriving DecidableEq, Repr

def Ending.code : Ending → UInt32
  | .success => 0
  | .failure _ => 1
  | .misuse _ => 2

def defaultConfigPath : String := "bench/bench.yaml"

/-- The configuration with what the command line overrides. -/
def Options.override (o : Options) (c : Config) : Config :=
  { c with
    runId := o.runId.getD c.runId
    problem := { c.problem with
      instances := o.instances.getD c.problem.instances
      trials := o.trials.getD c.problem.trials
      seed := (o.seed.map UInt64.ofNat).or c.problem.seed }
    logging := { c.logging with
      solverDetails := o.logSolverDetails || c.logging.solverDetails } }

def loadedLine (c : Config) : String :=
  let solvers := c.solvers.length
  let plural := if solvers = 1 then "" else "s"
  let p := c.problem
  s!"Loaded configuration '{c.runId}' with {solvers} solver{plural} " ++
    s!"({p.instances} {p.graph.name} instances of {p.variableCount} variables, " ++
    s!"{p.trials} trials, {p.direction.name})"

/-- What was logged, if anything was. -/
def summaryLines (s : Summarised) : List String :=
  let average := match s.summary.trials.first.mean? with
    | some ms =>
      [s!"  Trials: {s.summary.trials.count} events, avg {Decimal.fixed 2 ms} ms per solve"]
    | none => []
  let solvers :=
    if s.summary.anneal.count + s.summary.search.count = 0 then []
    else [s!"  Solver events: {s.summary.anneal.count} anneal, " ++
      s!"{s.summary.search.count} exhaustive"]
  [s!"Telemetry summary (JSON): {s.jsonPath}",
    s!"Telemetry summary (Markdown): {s.markdownPath}"] ++ average ++ solvers

def reportLines (runId : String) (r : Report) (summarised : Option Summarised) : List String :=
  [s!"Benchmark complete for '{runId}': {r.instances} instances × {r.trials} trials × " ++
      s!"{r.solvers} solvers → {r.rows} rows at {r.rowsPath}",
    s!"Summary table: {r.summaryPath}"] ++
    (r.telemetryPath.map fun path => s!"Telemetry log: {path}").toList ++
    (summarised.map summaryLines).getD []

def runRecord (c : Config) : Log.Record :=
  ⟨Log.runTarget, .info,
    [("run_id", .text c.runId), ("solver_details", .flag c.logging.solverDetails)]⟩

def logFilter (c : Config) : Log.Filter := ⟨c.logging.level?.getD .info, c.logging.solverDetails⟩

section Hosted
variable {m : Type → Type} [Monad m] [Host m]

def readConfig (path : String) : ExceptT Failure m Config := do
  let unreadable (fault : Files.Fault) : Failure :=
    if fault = .isDirectory then .unparsable path else .unreadable path fault
  let content ← onFiles unreadable (Host.read path)
  match (String.fromUTF8? content).map Config.ofText with
  | some (.ok c) =>
    let checked := c.check
    match checked.result with
    | .ok () => return checked.config
    | .error violation => throw (.invalidFile path violation)
  | _ => throw (.unparsable path)

def configure (o : Options) : ExceptT Failure m Config := do
  let checked := (o.override (← readConfig (o.config.getD defaultConfigPath))).check
  match checked.result with
  | .ok () => return checked.config
  | .error violation => throw (.invalid violation)

def printAll : List String → m Unit
  | [] => pure ()
  | line :: rest => do
    Host.print line
    printAll rest

def startLog (c : Config) : ExceptT Failure m Unit := do
  let directory := directoryOf c.outputPaths.summary
  onFiles (fun _ => .logDirectory directory) (Host.makeDirectories directory)
  onFiles (fun _ => .logFile c.telemetryPath) (Host.write c.telemetryPath "")

/-- Carries the benchmark out, unless the configuration is only to be checked. The records are
what is left for the log. -/
def perform (validateOnly : Bool) (c : Config) :
    m (Except Failure (Option Report) × List Log.Record) := do
  match Blueprint.ofSections c.solvers with
  | .error fault => return (.error (.benchmark (.params fault)), [])
  | .ok blueprints =>
    if validateOnly then return (.ok none, [])
    else
      let executed ← execute c blueprints
      return (executed.result.map some |>.mapError .benchmark, executed.records)

/-- Carries the benchmark out with a log, if one is wanted. -/
def performLogged (validateOnly : Bool) (c : Config) : ExceptT Failure m (Option Report) := do
  if c.logging.enabled then startLog c
  let (result, records) ← (perform validateOnly c : m _)
  if c.logging.enabled then
    let lines := Log.lines (logFilter c) (runRecord c :: records)
    discard (Host.append c.telemetryPath lines : m _)
  match result with
  | .ok report => return report
  | .error failure => throw failure

def runOptions (o : Options) : ExceptT Failure m Unit := do
  let c ← configure o
  (printAll [loadedLine c] : m Unit)
  match ← performLogged o.validateOnly c with
  | none => (printAll ["Validation-only mode: benchmark execution skipped."] : m Unit)
  | some report =>
    match ← (report.summariseLog : m _) with
    | .error failure => throw (.benchmark failure)
    | .ok summarised => (printAll (reportLines c.runId report summarised) : m Unit)

def run (arguments : List String) : m Ending := do
  match Options.ofArguments arguments with
  | .error .help =>
    printAll helpLines
    return .success
  | .error .version =>
    printAll [versionLine]
    return .success
  | .error (.misuse m) => return .misuse m
  | .ok o =>
    match ← (runOptions o).run with
    | .ok () => return .success
    | .error failure => return .failure failure

end Hosted

end Qubo.CommandLine

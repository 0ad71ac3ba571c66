import Qubo.Benchmark.Analytics.Table
import Qubo.Benchmark.Run
import Qubo.Files.Host
import Qubo.Files.Path
import Qubo.Log.Line
import Qubo.Telemetry.Report

/-!
Carrying a benchmark out: the run with its files, and the summary of its log.
-/
namespace Qubo.Benchmark
open Files

inductive TelemetryFailure where
  | files (doing : String) (fault : Files.Fault)
  | encoding
  | json
  deriving DecidableEq, Repr

def readingLine : String := "reading telemetry line"

def TelemetryFailure.message : TelemetryFailure → String
  | .files doing fault => s!"{doing}: {fault.message}"
  | .encoding => s!"{readingLine}: stream did not contain valid UTF-8"
  | .json => "failed to parse telemetry JSON: the line is not a JSON value"

inductive Failure where
  | params (fault : ParamFault)
  | solver (error : SolverError)
  | analytics (fault : AnalyticsFault)
  | files (fault : Files.Fault)
  | summary (fault : Files.Fault)
  | telemetry (failure : TelemetryFailure)
  deriving DecidableEq, Repr

def summaryMessage (fault : Files.Fault) : String :=
  s!"writing summary markdown: {fault.message}"

def Failure.message : Failure → String
  | .params fault => fault.message
  | .solver error => s!"solver failed: {error.message}"
  | .analytics fault => s!"analytics error: {fault.message}"
  | .files fault => s!"I/O error: {fault.message}"
  | .summary fault => s!"analytics error: {summaryMessage fault}"
  | .telemetry failure => s!"telemetry summarisation failed: {failure.message}"

def RunFault.toFailure : RunFault → Failure
  | .solver error => .solver error
  | .analytics fault => .analytics fault

def RunEvent.record : RunEvent Float → Log.Record
  | .solver event => Log.ofSolverEvent event
  | .trial row => row.record

/-- What a run leaves in the log, if that is wanted: the solvers' events always, those of the
trials if the configuration says so. -/
def logged (c : Config) (events : List (RunEvent Float)) : List Log.Record :=
  events.filterMap fun e =>
    match e with
    | .trial _ => if c.logging.enabled then some e.record else none
    | .solver _ => some e.record

structure Report where
  instances : Nat
  trials : Nat
  solvers : Nat
  /-- Number of rows, counted in a word. -/
  rows : UInt64
  rowsPath : String
  summaryPath : String
  telemetryPath : Option String
  deriving DecidableEq, Repr

def telemetryFile : String := "telemetry.jsonl"

def directoryOf (path : String) : String := (Path.parent? path).getD "."

/-- The log stands beside the summary. -/
def Config.telemetryPath (c : Config) : String :=
  Path.join (directoryOf c.outputPaths.summary) telemetryFile

section Hosted
variable {m : Type → Type} [Monad m] [Host m]

/-- An operation on files as a step that may fail. -/
def onFiles {ε β : Type} (wrap : Files.Fault → ε) (operation : m (Except Files.Fault β)) :
    ExceptT ε m β :=
  ExceptT.mk do
    match ← operation with
    | .ok x => return .ok x
    | .error fault => return .error (wrap fault)

def timedAttempt (p : ProblemSection) (r : Round Float) (b : Blueprint Float) :
    m (Attempt Float) := do
  let ((result, events), elapsedMs) ← Host.time fun _ => solveRound p r b
  return ⟨b, result, events, elapsedMs⟩

/-- Makes the directories of the outputs and an empty file for the rows. -/
def prepareOutputs (paths : OutputSection) : ExceptT Failure m Unit := do
  onFiles .files (Host.makeDirectories ((Path.parent? paths.rows).getD ""))
  onFiles .files (Host.makeDirectories ((Path.parent? paths.summary).getD ""))
  onFiles .files (Host.makeDirectories paths.plots)
  onFiles .files (Host.write paths.rows "")

/-- What carrying a benchmark out gives, and what it leaves in the log even if it fails. -/
structure Executed where
  result : Except Failure Report
  records : List Log.Record

def Report.ofRun (c : Config) (solvers : Nat) (rows : Nat) : Report where
  instances := c.problem.instances
  trials := c.problem.trials
  solvers := solvers
  rows := .ofNat rows
  rowsPath := c.outputPaths.rows
  summaryPath := c.outputPaths.summary
  telemetryPath := if c.logging.enabled then some c.telemetryPath else none

/-- Writes what a run has brought: its rows, also those of a run that failed later, and then the
summary. -/
def writeOutputs (c : Config) (solvers : Nat) (p : Progress Float)
    (ended : Except RunFault Unit) : ExceptT Failure m Report := do
  onFiles .files (Host.write c.outputPaths.rows (Row.lines p.rows.toList))
  match ended with
  | .error fault => throw fault.toFailure
  | .ok () =>
    onFiles .summary (Host.write c.outputPaths.summary p.collector.summary.markdown)
    return .ofRun c solvers p.rows.size

/-- Carries out a benchmark whose rounds are run by `runs`. -/
def executeWith (c : Config) (solvers : Nat)
    (runs : Progress Float → m (Progress Float × Except RunFault Unit)) : m Executed := do
  match ← (prepareOutputs c.outputPaths).run with
  | .error failure => return ⟨.error failure, []⟩
  | .ok () =>
    match Progress.new c with
    | .error fault => return ⟨.error (.analytics fault), []⟩
    | .ok start =>
      let (p, ended) ← runs start
      let result ← (writeOutputs c solvers p ended).run
      return ⟨result, logged c p.events.toList⟩

/-- Carries out the benchmark of a valid configuration. -/
def execute (c : Config) (blueprints : List (Blueprint Float)) : m Executed :=
  executeWith c blueprints.length fun start =>
    runRounds c blueprints (timedAttempt c.problem) start (rounds c.problem)

/-- A summarised log and the files that the summary was written to. -/
structure Summarised where
  summary : Telemetry.Summary Float
  jsonPath : String
  markdownPath : String

/-- Summarises a log; a log that is not there is empty. -/
def readTelemetry (path : String) : ExceptT TelemetryFailure m (Telemetry.Summary Float) := do
  if !(← (Host.isThere path : m Bool)) then return .empty
  let doing (fault : Files.Fault) : TelemetryFailure :=
    .files (if fault = .isDirectory then readingLine else "opening telemetry log") fault
  let log ← onFiles doing (Host.read path)
  match Telemetry.Summary.ofLines (Telemetry.linesOf log) with
  | .ok summary => return summary
  | .error .encoding => throw .encoding
  | .error .json => throw .json

/-- Summarises a log that is there, writes the summary beside it, and adds the highlights to the
summary of the benchmark. -/
def summariseLog (path summaryPath : String) : ExceptT TelemetryFailure m (Option Summarised) := do
  if !(← (Host.isThere path : m Bool)) then return none
  let summary ← readTelemetry path
  let jsonPath := Path.join (directoryOf path) "telemetry_summary.json"
  let markdownPath := Path.join (directoryOf path) "telemetry_summary.md"
  onFiles (.files "writing telemetry summary json") (Host.write jsonPath summary.toJson.pretty)
  onFiles (.files "writing telemetry summary markdown")
    (Host.write markdownPath (summary.markdown path))
  onFiles (.files "opening summary markdown for telemetry append")
    (Host.append summaryPath summary.highlights)
  return some ⟨summary, jsonPath, markdownPath⟩

def Report.summariseLog (r : Report) : m (Except Failure (Option Summarised)) := do
  match r.telemetryPath with
  | none => return .ok none
  | some path =>
    match ← (Benchmark.summariseLog path r.summaryPath).run with
    | .ok summarised => return .ok summarised
    | .error failure => return .error (.telemetry failure)

end Hosted

end Qubo.Benchmark

import Qubo.Benchmark.Config
import Qubo.Benchmark.Trial

/-!
Collecting trials: one account for each configured solver, and for each solver but the baseline
its differences from the baseline.
-/
namespace Qubo.Benchmark
variable {α : Type} [Scalar α]

inductive AnalyticsFault where
  | noBaseline
  | unknownSolver (name : String)
  | noBaselineResult (baseline trial : String)
  deriving DecidableEq, Repr

def AnalyticsFault.message : AnalyticsFault → String
  | .noBaseline => "baseline solver '<unset>' not present in benchmark results"
  | .unknownSolver name => s!"solver '{name}' defined in results but missing from configuration"
  | .noBaselineResult baseline trial => s!"baseline '{baseline}' missing for trial {trial}"

/-- What one solver has reached so far. Hits and steps are counted in words, which wrap. -/
structure Account (α : Type) where
  solver : String
  strategy : Strategy
  energies : Array α
  totalGap : α
  hits : UInt32
  totalMs : α
  totalSteps : UInt64

namespace Account

@[specialize] def new (s : SolverSection) : Account α :=
  ⟨s.name, s.strategy, #[], Scalar.zero, 0, Scalar.zero, 0⟩

@[specialize] def credit (a : Account α) (r : SolverResult α) (gap : α) : Account α :=
  { a with
    energies := a.energies.push r.energy
    totalGap := a.totalGap + gap
    hits := if isHit gap then a.hits + 1 else a.hits
    totalMs := a.totalMs + r.elapsedMs
    totalSteps := a.totalSteps + .ofNat r.steps }

/-- Puts an account in the place of the one of the same solver, or last. -/
def insert (new : Account α) : List (Account α) → List (Account α)
  | [] => [new]
  | a :: rest => if a.solver = new.solver then new :: rest else a :: insert new rest

def update? (solver : String) (change : Account α → Account α) :
    List (Account α) → Option (List (Account α))
  | [] => none
  | a :: rest =>
    if a.solver = solver then some (change a :: rest)
    else (update? solver change rest).map (a :: ·)

end Account

structure Differences (α : Type) where
  solver : String
  values : Array α

def Differences.add (solver : String) (x : α) : List (Differences α) → List (Differences α)
  | [] => [⟨solver, #[x]⟩]
  | d :: rest =>
    if d.solver = solver then { d with values := d.values.push x } :: rest
    else d :: add solver x rest

structure Collector (α : Type) where
  baseline : String
  direction : Direction
  budgetMs : Nat
  /-- In the order of the configuration, one for each name. -/
  accounts : List (Account α)
  differences : List (Differences α)

namespace Collector

@[specialize] def new (c : Config) : Except AnalyticsFault (Collector α) :=
  match c.metrics.baseline with
  | none => .error .noBaseline
  | some baseline => .ok {
      baseline := baseline
      direction := c.problem.direction
      budgetMs := c.metrics.budgetMs
      accounts := c.solvers.foldl (fun accounts s => Account.insert (.new s) accounts) []
      differences := [] }

/-- Credits results to their solvers, up to the first one whose solver is not configured; what
was credited before it stays. -/
@[specialize] def credit (t : Trial α) (c : Collector α) :
    List (SolverResult α) → Collector α × Except AnalyticsFault Unit
  | [] => (c, .ok ())
  | r :: rest =>
    match Account.update? r.solver (·.credit r (t.gap c.direction r.energy)) c.accounts with
    | none => (c, .error (.unknownSolver r.solver))
    | some accounts => credit t { c with accounts := accounts } rest

/-- Adds the difference of a result from the baseline's energy; more than zero is worse. -/
@[specialize] def compare (baselineEnergy : α) (c : Collector α) (r : SolverResult α) :
    Collector α :=
  if r.solver = c.baseline then c
  else
    let difference := c.direction.sign (r.energy - baselineEnergy)
    { c with differences := Differences.add r.solver difference c.differences }

@[specialize] def record (c : Collector α) (id : String) (t : Trial α) :
    Collector α × Except AnalyticsFault Unit :=
  match t.results.find? (·.solver == c.baseline) with
  | none => (c, .error (.noBaselineResult c.baseline id))
  | some base =>
    match c.credit t t.results with
    | (c, .error fault) => (c, .error fault)
    | (c, .ok ()) => (t.results.foldl (compare base.energy) c, .ok ())

end Collector

end Qubo.Benchmark

import Qubo.Benchmark.Analytics.Collector
import Qubo.Benchmark.Blueprint
import Qubo.Benchmark.Row
import Qubo.Solver

/-!
A benchmark run: every solver on every trial of every problem instance. The problems are drawn
one after another from one generator; each is followed by a seed of its own, from which the
seeds of its trials are drawn, so that neither further instances nor further trials nor other
solvers change what a solver starts from.
-/
namespace Qubo.Benchmark
variable {α : Type} [Scalar α]

/-- One trial of one problem instance, to be run by every solver. -/
structure Round (α : Type) where
  instanceIndex : Nat
  trialIndex : Nat
  instanceSeed : UInt64
  solverSeed : UInt64
  problem : Problem α

@[specialize] def drawInstance (p : ProblemSection) : Random.Draw (Problem α × UInt64) := fun g =>
  let (problem, g) := Random.problem p.graph p.n0 p.n1 g
  let (seed, g) := Random.Draw.word g
  ((problem, seed), g)

/-- The problem instances with their seeds. Without a seed the draws start from zero. -/
@[specialize] def instances (p : ProblemSection) : List (Problem α × UInt64) :=
  (Random.Draw.many (drawInstance p) p.instances (.ofSeed (p.seed.getD 0))).1

def instanceRounds (trials instanceIndex : Nat) (problem : Problem α) (seed : UInt64) :
    List (Round α) :=
  (Random.trialSeeds seed trials).zipIdx.map fun (solverSeed, trialIndex) =>
    ⟨instanceIndex, trialIndex, seed, solverSeed, problem⟩

@[specialize] def rounds (p : ProblemSection) : List (Round α) :=
  (instances p).zipIdx.flatMap fun ((problem, seed), index) =>
    instanceRounds p.trials index problem seed

structure Attempt (α : Type) where
  blueprint : Blueprint α
  result : Except SolverError (Outcome α)
  /-- What the solver left in the log. -/
  events : List (SolverEvent α)
  elapsedMs : α

/-- Creates, seeds and runs a solver. -/
@[specialize] def solveRound [Transcendental α] (p : ProblemSection) (r : Round α)
    (b : Blueprint α) : Except SolverError (Outcome α) × List (SolverEvent α) :=
  match Solver.create (.ofSeed r.solverSeed) p.graph b.strategy r.problem p.direction with
  | .error e => (.error e, [])
  | .ok (solver, created) =>
    let solved := (solver.seed r.solverSeed).solve b.schedule
    (solved.result, created :: solved.events)

def Attempt.result? (a : Attempt α) : Except SolverError (SolverResult α) := do
  let outcome ← a.result
  return {
    solver := a.blueprint.name
    strategy := a.blueprint.strategy
    energy := outcome.bestEnergy
    assignment := outcome.best
    candidates := outcome.energies.length
    steps := outcome.steps
    elapsedMs := a.elapsedMs }

@[specialize] def Round.trial (d : Direction) (attempts : List (Attempt α)) :
    Except SolverError (Trial α) := do
  Trial.ofResults d (← attempts.mapM Attempt.result?)

/-- An event of the run: from a solver, or a row that was written. -/
inductive RunEvent (α : Type) where
  | solver (event : SolverEvent α)
  | trial (row : Row α)

inductive RunFault where
  | solver (error : SolverError)
  | analytics (fault : AnalyticsFault)
  deriving DecidableEq, Repr

structure Progress (α : Type) where
  collector : Collector α
  rows : Array (Row α)
  events : Array (RunEvent α)

namespace Progress

@[specialize] def new (c : Config) : Except AnalyticsFault (Progress α) := do
  return ⟨← Collector.new c, #[], #[]⟩

@[specialize] def row (c : Config) (r : Round α) (t : Trial α) (result : SolverResult α) :
    Row α :=
  let gap := t.gap c.problem.direction result.energy
  { runId := c.runId
    instanceIndex := r.instanceIndex
    trialIndex := r.trialIndex
    instanceSeed := r.instanceSeed
    solverSeed := r.solverSeed
    graph := c.problem.graph
    direction := c.problem.direction
    result := result
    gap := gap
    hit := isHit gap }

/-- Adds a round. A round that fails leaves no rows. -/
@[specialize] def addRound (c : Config) (p : Progress α) (r : Round α)
    (attempts : List (Attempt α)) : Progress α × Except RunFault Unit :=
  let seen := attempts.flatMap fun a => a.events.map RunEvent.solver
  let p := { p with events := p.events ++ seen.toArray }
  match Round.trial c.problem.direction attempts with
  | .error e => (p, .error (.solver e))
  | .ok t =>
    match p.collector.record (trialId r.instanceIndex r.trialIndex) t with
    | (collector, .error fault) => ({ p with collector := collector }, .error (.analytics fault))
    | (collector, .ok ()) =>
      let rows := (t.results.map (row c r t)).toArray
      (⟨collector, p.rows ++ rows, p.events ++ rows.map RunEvent.trial⟩, .ok ())

end Progress

section Runs
variable {m : Type → Type} [Monad m]

/-- Runs the solvers in order, up to the first that fails. -/
@[specialize] def attemptAll (solve : Blueprint α → m (Attempt α)) :
    List (Blueprint α) → m (List (Attempt α))
  | [] => pure []
  | b :: rest => do
    let a ← solve b
    if a.result.toBool then return a :: (← attemptAll solve rest) else return [a]

/-- Runs the rounds in order, up to the first that fails. How a solver is run and timed is left
to the caller. -/
@[specialize] def runRounds (c : Config) (blueprints : List (Blueprint α))
    (solve : Round α → Blueprint α → m (Attempt α)) :
    Progress α → List (Round α) → m (Progress α × Except RunFault Unit)
  | p, [] => pure (p, .ok ())
  | p, r :: rest => do
    let attempts ← attemptAll (solve r) blueprints
    match p.addRound c r attempts with
    | (p, .error fault) => return (p, .error fault)
    | (p, .ok ()) => runRounds c blueprints solve p rest

end Runs

/-- The run of a configuration with given blueprints, where solving takes the times that
`elapsedMs` tells. -/
@[specialize] def run [Transcendental α] (c : Config) (blueprints : List (Blueprint α))
    (elapsedMs : Round α → Blueprint α → α) (start : Progress α) :
    Progress α × Except RunFault Unit :=
  let solve (r : Round α) (b : Blueprint α) : Id (Attempt α) :=
    let (result, events) := solveRound c.problem r b
    pure ⟨b, result, events, elapsedMs r b⟩
  Id.run (runRounds c blueprints solve start (rounds c.problem))

end Qubo.Benchmark

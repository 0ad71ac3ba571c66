import Qubo.Anneal.Sweep
import Qubo.Outcome
import Qubo.Schedule

/-!
Simulated quantum annealing as a session: a problem is loaded, trotter slices and starting
spins are chosen by the caller or by default, steps are taken, and the slices are read out.
-/
namespace Qubo.Anneal

/-- The types that belong to annealing on a graph family. -/
structure Family where
  Problem : Type
  /-- Spin form of a problem. -/
  Model : Type
  /-- The spins of all slices. -/
  Spins : Type
  Solution : Type
  /-- The signs of the spins of one slice. -/
  Signs : Type

/-- What one slice shows when it is read out. -/
structure Reading (F : Family) (α : Type) where
  energy : α
  solution : F.Solution
  signs : F.Signs

/-- A graph family whose problems can be annealed. -/
class Annealable (F : Family) (α : outParam Type) where
  model : F.Problem → Except SolverError F.Model
  signed : F.Model → Direction → F.Model
  extent : F.Model → Extent
  /-- Whether an assignment has one value per variable. -/
  checkStart : F.Model → F.Solution → Except SolverError Unit
  /-- One assignment in every slice. -/
  start : Nat → F.Solution → F.Spins
  /-- Random spins in a number of slices. -/
  random : F.Model → Nat → Random.Draw F.Spins
  /-- One step at a field and a temperature. -/
  step : F.Model → Nat → α → α → F.Spins → Random.Draw F.Spins
  /-- Reads a slice, with the sign of the direction on its energy. -/
  read : F.Model → Direction → F.Spins → Nat → Reading F α
  assignment : F.Solution → Assignment

/-- An annealer. -/
structure Session (F : Family) (α : Type) where
  /-- None until it is seeded or first needed. -/
  rng : Option Random.Generator
  /-- The generator that an annealer falls back on which was never seeded. -/
  entropy : Random.Generator
  direction : Direction
  /-- Spin form of the problem with the sign of the direction on every coefficient. -/
  model : Option F.Model
  /-- Number of slices, once chosen. -/
  trotters : Option Nat
  /-- Spins of every slice, once set. -/
  spins : Option F.Spins
  /-- Whether steps may be taken. -/
  prepared : Bool
  readings : List (Reading F α)

/-- A quarter of the number of variables, and at least one slice. -/
def defaultTrotters (count : Nat) : Nat := max (count / 4) 1

/-- What can be asked of an annealer. -/
inductive Request (F : Family) (α : Type) where
  | setProblem (problem : F.Problem) (direction : Direction)
  | setTrotters (count : Nat)
  | seed (seed : UInt64)
  | setX (start : F.Solution)
  | randomize
  | initAnneal
  | annealOneStep (g kt : α)
  | finAnneal
  | solve (schedule : Schedule α)

namespace Session
variable {F : Family} {α : Type}

def new (entropy : Random.Generator) : Session F α where
  rng := none
  entropy := entropy
  direction := .minimize
  model := none
  trotters := none
  spins := none
  prepared := false
  readings := []

/-- Number of slices; zero until it is chosen. -/
def slices (s : Session F α) : Nat := s.trotters.getD 0

def generator (s : Session F α) : Random.Generator := s.rng.getD s.entropy

def seed (value : UInt64) (s : Session F α) : Session F α :=
  { s with rng := some (.ofSeed value) }

variable [Scalar α] [Annealable F α]

/-- Loads a problem. The number of slices stays; spins have to be set anew. -/
def setProblem (p : F.Problem) (d : Direction) (s : Session F α) :
    Except SolverError (Session F α) := do
  let model ← Annealable.model p
  return { s with
    direction := d
    model := some (Annealable.signed model d)
    spins := none
    prepared := false }

/-- Chooses the number of slices, after which spins have to be set anew. -/
def setTrotters (count : Nat) (s : Session F α) : Except SolverError (Session F α) :=
  if count = 0 then .error (.invalidTrotterCount count)
  else match s.model with
    | none => .error .problemNotSet
    | some _ => .ok { s with trotters := some count, spins := none, prepared := false }

/-- Chooses the default number of slices if none has been chosen. -/
def ensureTrotters (model : F.Model) (s : Session F α) : Session F α :=
  match s.trotters with
  | some _ => s
  | none => { s with
      trotters := some (defaultTrotters (Annealable.extent model).variableCount)
      spins := none
      prepared := false }

/-- Starts every slice from the same assignment. -/
def setX (x : F.Solution) (s : Session F α) : Except SolverError (Session F α) :=
  match s.model with
  | none => .error .problemNotSet
  | some model => do
    Annealable.checkStart model x
    let s := s.ensureTrotters model
    return { s with spins := some (Annealable.start s.slices x) }

/-- Draws every spin anew for a given model. -/
def drawSpins (model : F.Model) (s : Session F α) : Session F α :=
  let s := s.ensureTrotters model
  let (spins, g) := Annealable.random model s.slices s.generator
  { s with rng := some g, spins := some spins }

def randomize (s : Session F α) : Except SolverError (Session F α) :=
  match s.model with
  | none => .error .problemNotSet
  | some model => .ok (s.drawSpins model)

/-- Fills in what the caller has not chosen: a generator, the number of slices, spins. -/
def initAnneal (s : Session F α) : Except SolverError (Session F α) :=
  match s.model with
  | none => .error .problemNotSet
  | some model =>
    let s := { s with rng := some s.generator }.ensureTrotters model
    let s := if s.spins.isSome then s else s.drawSpins model
    .ok { s with prepared := true }

/-- One sweep over all spins at field `g` and temperature `kt`. -/
def annealOneStep (g kt : α) (s : Session F α) : Except SolverError (Session F α) :=
  if !s.prepared then .error (.notInitialized .annealOneStep)
  else match s.model, s.rng, s.spins with
    | none, _, _ => .error .problemNotSet
    | some model, some rng, some spins =>
      let (spins, rng) := Annealable.step model s.slices g kt spins rng
      .ok { s with rng := some rng, spins := some spins }
    | some _, _, _ => .error (.notInitialized .annealOneStep)

def finAnneal (s : Session F α) : Except SolverError (Session F α) :=
  if !s.prepared then .error (.notInitialized .finAnneal)
  else match s.model, s.spins with
    | none, _ => .error .problemNotSet
    | some _, none => .error (.notInitialized .finAnneal)
    | some model, some spins =>
      .ok { s with
        readings := (List.range s.slices).map (Annealable.read model s.direction spins) }

def energies (s : Session F α) : List α := s.readings.map (·.energy)

def solutions (s : Session F α) : List F.Solution := s.readings.map (·.solution)

def signs (s : Session F α) : List F.Signs := s.readings.map (·.signs)

/-- Spin form of the problem as it was loaded, without the sign of the direction. -/
def givenModel (s : Session F α) : Option F.Model :=
  s.model.map fun model => Annealable.signed model s.direction

/-- The last readings, each energy with its assignment. -/
def candidates (s : Session F α) : List (Keyed α Assignment) :=
  s.readings.map fun r => ⟨r.energy, Annealable.assignment r.solution⟩

def event (s : Session F α) : SolverEvent α :=
  .annealed (s.model.elim (.dense 0) Annealable.extent) s.direction s.slices
    (s.direction.best? s.energies)

/-- Everything up to the readings of a complete run: new spins, then one step per field. -/
def anneal (schedule : Schedule α) (s : Session F α) : Except SolverError (Session F α) := do
  schedule.validate
  let s ← match schedule.trotters with
    | some count => s.setTrotters count
    | none => pure s
  let s ← s.randomize
  let s ← s.initAnneal
  let s ← schedule.fields.foldlM (fun s g => s.annealOneStep g schedule.kt) s
  s.finAnneal

def solve (schedule : Schedule α) (s : Session F α) : Solved (Session F α) α :=
  match s.anneal schedule with
  | .error e => ⟨s, .error e, []⟩
  | .ok s' =>
    ⟨s', Outcome.collect s'.direction s'.candidates schedule.stepCount, [s'.event]⟩

/-- Answers one request; a request that fails leaves the annealer as it was. -/
def step (s : Session F α) : Request F α → Session F α × Except SolverError (Option (Outcome α))
  | .setProblem p d => keep (s.setProblem p d)
  | .setTrotters count => keep (s.setTrotters count)
  | .seed value => keep (.ok (s.seed value))
  | .setX x => keep (s.setX x)
  | .randomize => keep s.randomize
  | .initAnneal => keep s.initAnneal
  | .annealOneStep g kt => keep (s.annealOneStep g kt)
  | .finAnneal => keep s.finAnneal
  | .solve schedule => ((s.solve schedule).solver, (s.solve schedule).result.map some)
where
  /-- The new state of a request that succeeds, the old one otherwise. -/
  keep : Except SolverError (Session F α) →
      Session F α × Except SolverError (Option (Outcome α))
    | .error e => (s, .error e)
    | .ok s' => (s', .ok none)

def run (s : Session F α) (requests : List (Request F α)) : Session F α :=
  requests.foldl (fun s r => (s.step r).1) s

end Session

end Qubo.Anneal

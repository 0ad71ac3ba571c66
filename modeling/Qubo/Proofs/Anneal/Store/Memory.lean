import Mathlib.Tactic
import Qubo.Anneal.Session
import Qubo.Proofs.Checked

/-! An annealer in storage. The number of slices and the spins have room from the start, and flags
tell which of them count; spins are overwritten in place, and whatever is not there when it is
needed is a refusal or a fault. -/
namespace Qubo.Anneal
open Checked (Fault)

/-- A graph family in storage: what an annealer does to its spins and problems, entry by entry. -/
class Storable (F : Family) (α : outParam Type) where
  /-- The spin form of a problem, unless the problem is refused. -/
  model : F.Problem → Except Fault (Except SolverError F.Model)
  /-- No slices of no variables. -/
  empty : F.Spins
  /-- Room for a number of slices. -/
  allocate : F.Model → ℕ → Except Fault F.Spins
  /-- Writes one assignment into a number of slices. -/
  start : ℕ → F.Solution → F.Spins → Except Fault F.Spins
  random : F.Spins → Random.Generator → Except Fault (F.Spins × Random.Generator)
  step : F.Model → α → α → F.Spins → Random.Generator → Except Fault (F.Spins × Random.Generator)
  read : F.Model → Direction → F.Spins → ℕ → Except Fault (Reading F α)

/-- What an annealer stores. -/
structure Memory (F : Family) (α : Type) where
  rng : Option Random.Generator
  /-- The generator that an annealer falls back on which was never seeded. -/
  entropy : Random.Generator
  direction : Direction
  model : Option F.Model
  /-- Zero until it is chosen. -/
  slices : ℕ
  slicesChosen : Bool
  /-- Zeros until they are set. -/
  spins : F.Spins
  spinsSet : Bool
  prepared : Bool
  energies : List α
  solutions : List F.Solution
  signs : List F.Signs

/-- Why an action stops before its end. -/
inductive Stop where
  | refused (error : SolverError)
  | fault (fault : Fault)

/-- A change of storage that may stop half way, with what it has done by then. -/
abbrev Action (F : Family) (α β : Type) := EStateM Stop (Memory F α) β

/-- The outcome of the candidates with these energies and solutions. -/
def collectAt {α : Type} [LT α] [DecidableLT α] (d : Direction) (energies : List α)
    (solutions : List Assignment) (steps : ℕ) : Except Fault (Except SolverError (Outcome α)) :=
  match d.bestIndex? energies with
  | none => return .error .empty
  | some k => do
    let bestEnergy ← Checked.demand energies[k]?
    let best ← Checked.demand solutions[k]?
    return .ok { energies, solutions, bestEnergy, best, steps }

namespace Memory
variable {F : Family} {α β : Type}

def refuse (x : Except SolverError β) : Action F α β :=
  match x with
  | .ok v => return v
  | .error e => throw (.refused e)

def attempt (x : Except Fault β) : Action F α β :=
  match x with
  | .ok v => return v
  | .error f => throw (.fault f)

/-- The model of the problem that has been loaded. -/
def loaded : Action F α F.Model := do
  match (← get).model with
  | none => refuse (.error .problemNotSet)
  | some model => return model

def seed (value : UInt64) : Action F α Unit :=
  modify fun st => { st with rng := some (.ofSeed value) }

variable [Storable F α]

/-- An annealer without a problem. -/
def new (entropy : Random.Generator) : Memory F α where
  rng := none
  entropy := entropy
  direction := .minimize
  model := none
  slices := 0
  slicesChosen := false
  spins := Storable.empty (F := F)
  spinsSet := false
  prepared := false
  energies := []
  solutions := []
  signs := []

/-- Makes room for the spins of all slices. -/
def allocate (model : F.Model) : Action F α Unit := do
  let q ← attempt (Storable.allocate model (← get).slices)
  modify fun st => { st with spins := q }

variable [Annealable F α]

def setProblem (p : F.Problem) (d : Direction) : Action F α Unit := do
  let model ← refuse (← attempt (Storable.model p))
  let model := Annealable.signed model d
  modify fun st => { st with
    direction := d, model := some model, spinsSet := false, prepared := false }
  if (← get).slicesChosen then allocate model

def setTrotters (count : ℕ) : Action F α Unit := do
  if count = 0 then refuse (.error (.invalidTrotterCount count))
  let model ← loaded
  modify fun st => { st with
    slices := count, slicesChosen := true, spinsSet := false, prepared := false }
  allocate model

/-- Chooses the default number of slices if none has been chosen. -/
def ensureTrotters : Action F α Unit := do
  if !(← get).slicesChosen then
    let model ← loaded
    setTrotters (defaultTrotters (Annealable.extent model).variableCount)

def setX (x : F.Solution) : Action F α Unit := do
  let model ← loaded
  refuse (Annealable.checkStart model x)
  ensureTrotters
  let st ← get
  let q ← attempt (Storable.start st.slices x st.spins)
  set { st with spins := q, spinsSet := true }

def randomize : Action F α Unit := do
  let _ ← loaded
  ensureTrotters
  let st ← get
  let (q, rng) ← attempt (Storable.random st.spins (st.rng.getD st.entropy))
  set { st with rng := some rng, spins := q, spinsSet := true }

/-- Draws the spins if they have not been set. -/
def ensureSpins : Action F α Unit := do
  if !(← get).spinsSet then randomize

def initAnneal : Action F α Unit := do
  let _ ← loaded
  modify fun st => { st with rng := some (st.rng.getD st.entropy) }
  ensureTrotters
  ensureSpins
  modify fun st => { st with prepared := true }

def annealOneStep (g kt : α) : Action F α Unit := do
  let st ← get
  if !st.prepared then refuse (.error (.notInitialized .annealOneStep))
  let model ← loaded
  match st.rng with
  | none => refuse (.error (.notInitialized .annealOneStep))
  | some rng =>
    let (q, rng) ← attempt (Storable.step model g kt st.spins rng)
    set { st with rng := some rng, spins := q }

def finAnneal : Action F α Unit := do
  let st ← get
  if !st.prepared then refuse (.error (.notInitialized .finAnneal))
  let model ← loaded
  let readings ← attempt
    ((List.range st.slices).mapM (Storable.read model st.direction st.spins))
  set { st with
    energies := readings.map Reading.energy
    solutions := readings.map Reading.solution
    signs := readings.map Reading.signs }

/-- One more step at a temperature. -/
def countStep (kt : α) (steps : ℕ) (g : α) : Action F α ℕ := do
  annealOneStep g kt
  return steps + 1

variable [Scalar α]

/-- Everything up to the readings of a complete run, and the number of steps it took. -/
def anneal (schedule : Schedule α) : Action F α ℕ := do
  refuse schedule.validate
  schedule.trotters.elim (return ()) setTrotters
  randomize
  initAnneal
  let steps ← schedule.fields.foldlM (countStep schedule.kt) 0
  finAnneal
  return steps

/-- A complete run. -/
def solve (schedule : Schedule α) : Action F α (Outcome α) := do
  let steps ← anneal schedule
  let st ← get
  refuse (← attempt
    (collectAt st.direction st.energies (st.solutions.map Annealable.assignment) steps))

def perform : Request F α → Action F α (Option (Outcome α))
  | .setProblem p d => do setProblem p d; return none
  | .setTrotters count => do setTrotters count; return none
  | .seed value => do seed value; return none
  | .setX x => do setX x; return none
  | .randomize => do randomize; return none
  | .initAnneal => do initAnneal; return none
  | .annealOneStep g kt => do annealOneStep g kt; return none
  | .finAnneal => do finAnneal; return none
  | .solve schedule => return some (← solve schedule)

/-- The answer of an action that has stopped, with what it has stored by then; none of a fault. -/
def settle : EStateM.Result Stop (Memory F α) β →
    Except Fault (Memory F α × Except SolverError β)
  | .ok v st => .ok (st, .ok v)
  | .error (.refused e) st => .ok (st, .error e)
  | .error (.fault f) _ => .error f

/-- The answer to one request. -/
def answer (st : Memory F α) (r : Request F α) :
    Except Fault (Memory F α × Except SolverError (Option (Outcome α))) :=
  settle (perform r st)

/-- What is stored after a sequence of requests, none of which faults. -/
def run (st : Memory F α) (requests : List (Request F α)) : Except Fault (Memory F α) :=
  requests.foldlM (fun st r => (·.1) <$> st.answer r) st

end Memory

end Qubo.Anneal

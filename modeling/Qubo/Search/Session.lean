import Qubo.Outcome
import Qubo.Schedule
import Qubo.Search.Tally

/-!
Exhaustive search as a session that is opened, fed with regions of the search space in any
order, and closed; and the complete run that covers the space region by region.
-/
namespace Qubo.Search

/-- The types that belong to the exhaustive search of a graph family. -/
structure Family where
  Problem : Type
  /-- An assignment packed into words. -/
  Key : Type
  /-- A part of the search space. -/
  Region : Type
  /-- How large the regions of a complete run are. -/
  Tile : Type
  Solution : Type

/-- A graph family whose assignments can be listed. -/
class Enumerable (F : Family) (α : outParam Type) where
  extent : F.Problem → Extent
  /-- Whether a problem fits together and is small enough. -/
  check : F.Problem → Except SolverError Unit
  signed : F.Problem → Direction → F.Problem
  /-- The least tile that is at least as large and not empty. -/
  widen : F.Tile → F.Tile
  /-- Regions of the size of a tile that cover the search space. -/
  regions : F.Problem → F.Tile → List F.Region
  /-- The assignments of a region that lie in the search space, with their energies. -/
  candidates : F.Problem → F.Region → List (F.Key × α)
  solution : F.Problem → F.Key → F.Solution
  assignment : F.Solution → Assignment

structure Session (F : Family) (α : Type) where
  direction : Direction
  /-- The problem with the sign of the direction on every coefficient. -/
  problem : Option F.Problem
  tile : F.Tile
  /-- How many tied optima are kept. -/
  cap : Nat
  /-- The running result, while a search is open. -/
  tally : Option (Tally F.Key α)
  energies : List α
  solutions : List F.Solution

/-- Tied optima that are kept unless told otherwise. -/
def defaultCap : Nat := 1024

/-- What can be asked of an exhaustive solver. -/
inductive Request (F : Family) (α : Type) where
  | setProblem (problem : F.Problem) (direction : Direction)
  | setTile (tile : F.Tile)
  | setCap (cap : Nat)
  | initSearch
  | searchRange (region : F.Region)
  | finSearch
  | search
  | seed (seed : UInt64)
  | solve (schedule : Schedule α)

namespace Session
variable {F : Family} {α : Type}

def new (tile : F.Tile) : Session F α where
  direction := .minimize
  problem := none
  tile := tile
  cap := defaultCap
  tally := none
  energies := []
  solutions := []

variable [Scalar α] [Enumerable F α]

/-- Loads a problem, which closes an open search. -/
def setProblem (p : F.Problem) (d : Direction) (s : Session F α) :
    Except SolverError (Session F α) := do
  Enumerable.check p
  return { s with direction := d, problem := some (Enumerable.signed p d), tally := none }

def setTile (tile : F.Tile) (s : Session F α) : Session F α :=
  { s with tile := Enumerable.widen tile }

/-- At least one optimum is always kept. -/
def setCap (cap : Nat) (s : Session F α) : Session F α := { s with cap := max cap 1 }

/-- Opens a search with nothing met so far. -/
def initSearch (s : Session F α) : Except SolverError (Session F α) :=
  match s.problem with
  | none => .error .problemNotSet
  | some _ => .ok { s with tally := some .empty }

/-- Evaluates the assignments of a region. -/
def searchRange (region : F.Region) (s : Session F α) : Except SolverError (Session F α) :=
  match s.tally, s.problem with
  | none, _ => .error (.notInitialized .searchRange)
  | some _, none => .error .problemNotSet
  | some t, some p =>
    .ok { s with tally := some (t.offerAll s.cap (Enumerable.candidates p region)) }

/-- Closes the search and publishes the tied optima, all with the least energy met. -/
def finSearch (s : Session F α) : Except SolverError (Session F α) :=
  match s.tally, s.problem with
  | none, _ => .error (.notInitialized .finSearch)
  | some _, none => .error .problemNotSet
  | some t, some p =>
    .ok { s with
      tally := none
      energies := t.least.elim [] fun e => List.replicate t.ties.size (s.direction.sign e)
      solutions := t.ties.toList.map (Enumerable.solution p) }

/-- A search of the whole space, region by region. -/
def search (s : Session F α) : Except SolverError (Session F α) := do
  let s ← s.initSearch
  let s ← (s.problem.elim [] fun p => Enumerable.regions p s.tile).foldlM
    (fun s region => s.searchRange region) s
  s.finSearch

def candidates (s : Session F α) : List (Keyed α Assignment) :=
  List.zipWith (fun e x => ⟨e, Enumerable.assignment x⟩) s.energies s.solutions

def event (s : Session F α) : SolverEvent α :=
  .searched (s.problem.elim (.dense 0) Enumerable.extent) s.direction s.energies.head?
    s.solutions.length

/-- A complete run. Exhaustive search has no use for a schedule. -/
def solve (s : Session F α) : Solved (Session F α) α :=
  match s.search with
  | .error e => ⟨s, .error e, []⟩
  | .ok s' => ⟨s', Outcome.collect s'.direction s'.candidates 0, [s'.event]⟩

/-- Answers one request; when it fails, only a complete run that has kept no assignment leaves
the solver other than it was. -/
def step (s : Session F α) : Request F α → Session F α × Except SolverError (Option (Outcome α))
  | .setProblem p d => keep (s.setProblem p d)
  | .setTile tile => keep (.ok (s.setTile tile))
  | .setCap cap => keep (.ok (s.setCap cap))
  | .initSearch => keep s.initSearch
  | .searchRange region => keep (s.searchRange region)
  | .finSearch => keep s.finSearch
  | .search => keep s.search
  | .seed _ => keep (.ok s)
  | .solve _ => (s.solve.solver, s.solve.result.map some)
where
  /-- The new state of a request that succeeds, the old one otherwise. -/
  keep : Except SolverError (Session F α) →
      Session F α × Except SolverError (Option (Outcome α))
    | .error e => (s, .error e)
    | .ok s' => (s', .ok none)

def run (s : Session F α) (requests : List (Request F α)) : Session F α :=
  requests.foldl (fun s r => (s.step r).1) s

end Session

end Qubo.Search

import Qubo.Anneal.Bipartite
import Qubo.Anneal.Dense
import Qubo.Problem
import Qubo.Search.Bipartite

/-!
A solver of any of the four kinds, chosen by graph family and strategy.
-/
namespace Qubo
variable {α : Type} [Scalar α] [Transcendental α]

inductive Solver (α : Type) [Scalar α] where
  | denseSearch (session : Search.DenseSession α)
  | bipartiteSearch (session : Search.BipartiteSession α)
  | denseAnneal (session : Anneal.DenseSession α)
  | bipartiteAnneal (session : Anneal.BipartiteSession α)

namespace Solver

def graph : Solver α → Graph
  | .denseSearch _ | .denseAnneal _ => .dense
  | .bipartiteSearch _ | .bipartiteAnneal _ => .rbm

def strategy : Solver α → Strategy
  | .denseSearch _ | .bipartiteSearch _ => .bruteForce
  | .denseAnneal _ | .bipartiteAnneal _ => .anneal

def direction : Solver α → Direction
  | .denseSearch s => s.direction
  | .bipartiteSearch s => s.direction
  | .denseAnneal s => s.direction
  | .bipartiteAnneal s => s.direction

/-- Seeds an annealer; exhaustive solvers have no use for a seed. -/
def seed (value : UInt64) : Solver α → Solver α
  | .denseAnneal s => .denseAnneal (s.seed value)
  | .bipartiteAnneal s => .bipartiteAnneal (s.seed value)
  | s => s

def solve (schedule : Schedule α) : Solver α → Solved (Solver α) α
  | .denseSearch s => let r := s.solve; ⟨.denseSearch r.solver, r.result, r.events⟩
  | .bipartiteSearch s => let r := s.solve; ⟨.bipartiteSearch r.solver, r.result, r.events⟩
  | .denseAnneal s => let r := s.solve schedule; ⟨.denseAnneal r.solver, r.result, r.events⟩
  | .bipartiteAnneal s =>
    let r := s.solve schedule
    ⟨.bipartiteAnneal r.solver, r.result, r.events⟩

/-- The solver for a problem and a strategy, with the problem loaded. -/
def load (entropy : Random.Generator) (p : Problem α) (strategy : Strategy) (d : Direction) :
    Except SolverError (Solver α) :=
  match p, strategy with
  | .dense w, .bruteForce => .denseSearch <$> Search.DenseSession.new.setProblem w d
  | .dense w, .anneal => .denseAnneal <$> (Anneal.Session.new entropy).setProblem w d
  | .bipartite p, .bruteForce => .bipartiteSearch <$> Search.BipartiteSession.new.setProblem p d
  | .bipartite p, .anneal => .bipartiteAnneal <$> (Anneal.Session.new entropy).setProblem p d

/-- The solver for a graph family and a strategy, with the event of its creation. The problem
has to be of that family; there is no solver for sparse graphs. -/
def create (entropy : Random.Generator) (graph : Graph) (strategy : Strategy) (p : Problem α)
    (d : Direction) : Except SolverError (Solver α × SolverEvent α) := do
  if p.graph ≠ graph then
    throw (.unsupported s!"{p.graph.name} problem passed to a {graph.name} solver")
  let solver ← load entropy p strategy d
  return (solver, .created graph strategy d p.variableCount)

end Solver

end Qubo

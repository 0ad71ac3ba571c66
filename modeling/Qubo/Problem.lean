import Qubo.Bipartite
import Qubo.Dense
import Qubo.Kind
import Qubo.Random.Instance

/-!
A problem of either supported graph family, with its energy, and random problems.
-/
namespace Qubo
variable {α : Type} [Scalar α]

inductive Problem (α : Type) where
  | dense (w : Matrix α)
  | bipartite (p : Bipartite.Coefficients α)

namespace Problem

def graph : Problem α → Graph
  | .dense _ => .dense
  | .bipartite _ => .rbm

def variableCount : Problem α → Nat
  | .dense w => w.rows
  | .bipartite p => p.b0.length + p.b1.length

/-- Whether the shapes fit together. -/
@[specialize] def validate : Problem α → Except SolverError Unit
  | .dense w => Dense.check w
  | .bipartite p => p.check

@[specialize] def energy : Problem α → Assignment → Except SolverError α
  | .dense w, .dense x => Dense.energy w x
  | .bipartite p, .bipartite x => p.energy x
  | p, _ => .error (.unsupported s!"assignment shape does not match a {p.graph.name} problem")

/-- Every coefficient negated. -/
def negate : Problem α → Problem α
  | .dense w => .dense (-w)
  | .bipartite p => .bipartite (p.signed .maximize)

end Problem

/-- A random problem; there are none on sparse graphs, which are drawn as dense ones. -/
@[specialize] def Random.problem (graph : Graph) (n0 n1 : Nat) : Random.Draw (Problem α) := fun g =>
  match graph with
  | .rbm => let (p, g) := Random.bipartite n0 n1 g; (.bipartite p, g)
  | _ => let (w, g) := Random.symmetric n0 g; (.dense w, g)

end Qubo

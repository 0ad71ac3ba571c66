import Mathlib.Tactic
import Qubo.Problem
import Qubo.Proofs.Bipartite
import Qubo.Proofs.Dense
import Qubo.Proofs.Random.Draw

/-! Problems of either family over exact arithmetic: which of them are exact, what their
assignments attain, and that random problems are exact. -/
namespace Qubo
namespace Problem

/-- Equal mirrored entries in a dense problem, matching shapes in a bipartite one. -/
def IsExact : Problem ℚ → Prop
  | .dense w => w.IsMirrored
  | .bipartite p => p.check = .ok ()

/-- Every layer can be packed into a word. -/
def IsPackable {α : Type} : Problem α → Prop
  | .dense w => w.rows ≤ Bits.maxPacked
  | .bipartite p => p.b0.length ≤ Bits.maxPacked ∧ p.b1.length ≤ Bits.maxPacked

/-- A zero or a one for each variable. -/
def Assigns {α : Type} : Problem α → Assignment → Prop
  | .dense w, .dense x => x.Assigns w.rows
  | .bipartite p, .bipartite x => x.Assigns p.b0.length p.b1.length
  | _, _ => False

/-- The energy of some assignment. -/
def IsAttained (p : Problem ℚ) (e : ℚ) : Prop := ∃ x, p.Assigns x ∧ p.energy x = .ok e

/-- No assignment is better by more than the tolerance. -/
def IsNearOptimal (p : Problem ℚ) (d : Direction) (e : ℚ) : Prop :=
  ∀ e', p.IsAttained e' → d.sign (e - e') ≤ Scalar.tolerance

end Problem

namespace Random

section
variable {α : Type} [Scalar α]

theorem symmetric_eq (n : ℕ) (g : Generator) : (symmetric (α := α) n g).1 =
    .generate n n fun r c => (Draw.many Draw.coefficient (n * (n + 1) / 2) g).1.toArray.getD
      (triangleIndex n (min r c) (max r c)) Scalar.zero := rfl

theorem entry_symmetric_comm {n r c : ℕ} (hr : r < n) (hc : c < n) (g : Generator) :
    (symmetric (α := α) n g).1.entry r c = (symmetric (α := α) n g).1.entry c r := by
  rw [symmetric_eq, Matrix.entry_generate _ hr hc, Matrix.entry_generate _ hc hr, min_comm,
    max_comm]

theorem length_b0_bipartite (n0 n1 : ℕ) (g : Generator) :
    (bipartite (α := α) n0 n1 g).1.b0.length = n0 :=
  Draw.length_many Draw.coefficient n0 g

theorem length_b1_bipartite (n0 n1 : ℕ) (g : Generator) :
    (bipartite (α := α) n0 n1 g).1.b1.length = n1 :=
  Draw.length_many Draw.coefficient n1 _

theorem check_bipartite (n0 n1 : ℕ) (g : Generator) :
    (bipartite (α := α) n0 n1 g).1.check = .ok () :=
  Bipartite.Coefficients.check_eq_ok_iff.mpr
    ⟨(length_b1_bipartite n0 n1 g).symm, (length_b0_bipartite n0 n1 g).symm⟩

/-- A random problem is of the graph family that was asked for, except that it is dense for sparse
graphs. -/
theorem graph_problem {graph : Graph} (hgraph : graph ≠ .sparse) (n0 n1 : ℕ) (g : Generator) :
    (problem (α := α) graph n0 n1 g).1.graph = graph := by
  cases graph with
  | sparse => exact absurd rfl hgraph
  | _ => rfl

theorem isPackable_problem {graph : Graph} {n0 n1 : ℕ} (h0 : n0 ≤ Bits.maxPacked)
    (h1 : n1 ≤ Bits.maxPacked ∨ graph ≠ .rbm) (g : Generator) :
    (problem (α := α) graph n0 n1 g).1.IsPackable := by
  cases graph with
  | rbm =>
    have h1 : n1 ≤ Bits.maxPacked := h1.resolve_right fun h => h rfl
    exact ⟨(length_b0_bipartite n0 n1 g).trans_le h0, (length_b1_bipartite n0 n1 g).trans_le h1⟩
  | _ => exact h0

end

theorem isMirrored_symmetric (n : ℕ) (g : Generator) :
    (symmetric (α := ℚ) n g).1.IsMirrored :=
  ⟨rfl, fun _ hr _ hc => entry_symmetric_comm hr hc g⟩

theorem isExact_problem (graph : Graph) (n0 n1 : ℕ) (g : Generator) :
    (problem (α := ℚ) graph n0 n1 g).1.IsExact := by
  cases graph with
  | rbm => exact check_bipartite n0 n1 g
  | _ => exact isMirrored_symmetric n0 g

end Random

end Qubo

import Qubo.Random.Draw
import Qubo.Bipartite
import Qubo.Dense

/-!
Random problems: every coefficient is an independent draw from `[-1/2, 1/2)`.
-/
namespace Qubo.Random
variable {α : Type} [Scalar α]

/-- Number of the draw for position `(r, c)` with `r ≤ c` when the upper triangle of an
`n × n` matrix is filled row by row. -/
def triangleIndex (n r c : Nat) : Nat := r * n - r * (r - 1) / 2 + (c - r)

/-- A symmetric matrix: one draw for each position on or above the diagonal, row by row, and
the mirrored positions share it. -/
@[specialize] def symmetric (n : Nat) : Draw (Matrix α) := fun g =>
  let (values, g) := Draw.many Draw.coefficient (n * (n + 1) / 2) g
  let values := values.toArray
  (.generate n n fun r c => values.getD (triangleIndex n (min r c) (max r c)) Scalar.zero, g)

/-- A bipartite problem: the biases of the first layer, those of the second, and then the
couplings row by row. -/
@[specialize] def bipartite (n0 n1 : Nat) : Draw (Bipartite.Coefficients α) := fun g =>
  let (b0, g) := Draw.many Draw.coefficient n0 g
  let (b1, g) := Draw.many Draw.coefficient n1 g
  let (values, g) := Draw.many Draw.coefficient (n1 * n0) g
  let values := values.toArray
  (⟨b0, b1, .generate n1 n0 fun r c => values.getD (r * n0 + c) Scalar.zero⟩, g)

end Qubo.Random

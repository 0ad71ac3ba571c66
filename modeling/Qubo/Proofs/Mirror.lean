import Mathlib.Tactic
import Qubo.Anneal.Bipartite
import Qubo.Anneal.Dense
import Qubo.Proofs.Anneal.Mirror
import Qubo.Proofs.Search.Mirror
import Qubo.Search.Bipartite

/-! Maximising is minimising the negated problem, for all four solvers: a solver that is given every
problem negated and in the opposite direction answers every request as the other one does, with the
sign of its energies turned around. -/
namespace Qubo

namespace Search

theorem isNegation_dense : IsNegation (F := denseFamily ℚ) (fun w : Matrix ℚ => -w) where
  check w := by
    show (Dense.check (-w) >>= fun _ => checkPackable [w.rows]) = _
    rw [Dense.check_neg]
    rfl
  signed w d := d.sign_opposite_neg w

theorem isNegation_bipartite :
    IsNegation (F := bipartiteFamily ℚ) (Bipartite.Coefficients.signed · .maximize) where
  check p := by
    show ((p.signed .maximize).check >>= fun _ =>
      checkPackable [(p.signed .maximize).b0.length, (p.signed .maximize).b1.length]) = _
    rw [p.check_signed_maximize, p.length_b0_signed, p.length_b1_signed]
    rfl
  signed p d := p.signed_opposite d

end Search

namespace Anneal

/-- What the spin form of a negated problem is, once it has the opposite sign. -/
private theorem map_signed_opposite {M : Type} {signed : M → Direction → M}
    (h : ∀ m d, signed (signed m .maximize) d.opposite = signed m d)
    (x : Except SolverError M) (d : Direction) :
    (x.map (signed · .maximize)).map (signed · d.opposite) = x.map (signed · d) := by
  cases x with
  | error e => rfl
  | ok m => exact congrArg Except.ok (h m d)

variable [Transcendental ℚ]

theorem isNegation_dense : IsNegation (F := denseFamily ℚ) (fun w : Matrix ℚ => -w) where
  model w d := by
    show (Dense.ising (-w)).map (·.signed d.opposite) = (Dense.ising w).map (·.signed d)
    rw [Dense.ising_neg]
    exact map_signed_opposite Dense.Ising.signed_opposite _ d
  read model d q k := by
    show denseRead model d.opposite q k = (denseRead model d q k).negate
    unfold denseRead
    rw [d.sign_opposite]
    rfl

theorem isNegation_bipartite :
    IsNegation (F := bipartiteFamily ℚ) (Bipartite.Coefficients.signed · .maximize) where
  model p d := by
    show (p.signed .maximize).ising.map (·.signed d.opposite) = p.ising.map (·.signed d)
    rw [p.ising_signed_maximize]
    exact map_signed_opposite Bipartite.Ising.signed_opposite _ d
  read model d q k := by
    show bipartiteRead model d.opposite q k = (bipartiteRead model d q k).negate
    unfold bipartiteRead
    rw [d.sign_opposite]
    rfl

end Anneal

/-- Both exhaustive solvers and both annealers, the latter from the same random numbers on: whatever
is asked of them, negated problems in the opposite direction make no difference but in the sign of
the energies. -/
theorem mirrored_requests_agree [Transcendental ℚ] (entropy : Random.Generator) :
    Search.DenseSession.new.AnswersMirrored (fun w : Matrix ℚ => -w) ∧
    Search.BipartiteSession.new.AnswersMirrored
      (fun p : Bipartite.Coefficients ℚ => p.signed .maximize) ∧
    (Anneal.Session.new entropy : Anneal.DenseSession ℚ).AnswersMirrored
      (fun w : Matrix ℚ => -w) ∧
    (Anneal.Session.new entropy : Anneal.BipartiteSession ℚ).AnswersMirrored
      (fun p : Bipartite.Coefficients ℚ => p.signed .maximize) :=
  ⟨Search.Session.answersMirrored _ Search.isNegation_dense rfl,
    Search.Session.answersMirrored _ Search.isNegation_bipartite rfl,
    Anneal.Session.answersMirrored _ Anneal.isNegation_dense rfl,
    Anneal.Session.answersMirrored _ Anneal.isNegation_bipartite rfl⟩

end Qubo

import Mathlib.Tactic
import Qubo.Solver
import Qubo.Proofs.Anneal.Run
import Qubo.Proofs.Energy
import Qubo.Proofs.Problem
import Qubo.Proofs.Search.Bipartite
import Qubo.Proofs.Search.Dense
import Qubo.Proofs.Search.Run
import Qubo.Proofs.Solver

/-! Problems that every solver of their family solves, in floats as in exact numbers: those whose
shapes fit and whose coefficients are finite. Random problems are among them. -/
namespace Qubo
open Scalar
variable {α : Type} [Scalar α]

namespace Matrix

def HasFiniteEntries (m : Matrix α) : Prop := ∀ x ∈ m.data, IsFinite x

theorem HasFiniteEntries.generate {m n : ℕ} {f : ℕ → ℕ → α} (h : ∀ r c, IsFinite (f r c)) :
    (generate m n f).HasFiniteEntries := by
  intro x hx
  obtain ⟨i, rfl⟩ := Array.mem_ofFn.mp hx
  exact h _ _

variable {m : Matrix α}

theorem HasFiniteEntries.of_mem_toRows (h : m.HasFiniteEntries) {row : List α}
    (hrow : row ∈ m.toRows) : ∀ x ∈ row, IsFinite x := by
  obtain ⟨r, -, rfl⟩ := List.mem_map.mp hrow
  intro x hx
  apply h
  rw [← Array.mem_toList_iff]
  rw [Matrix.row, Array.toList_extract] at hx
  exact List.mem_of_mem_drop (List.mem_of_mem_take hx)

variable [LawfulEnergies α]

theorem HasFiniteEntries.entry (h : m.HasFiniteEntries) (r c : ℕ) : IsFinite (m.entry r c) := by
  rw [Matrix.entry, Array.getD_eq_getD_getElem?]
  cases hx : m.data[r * m.cols + c]? with
  | none => exact isFinite_zero
  | some x => exact h x (Array.mem_of_getElem? hx)

theorem HasFiniteEntries.sign (h : m.HasFiniteEntries) (d : Direction) :
    (d.sign m).HasFiniteEntries := by
  cases d with
  | minimize => exact h
  | maximize =>
    intro x hx
    obtain ⟨y, hy, rfl⟩ := Array.mem_map.mp hx
    exact (h y hy).sign .maximize

theorem HasFiniteEntries.isNull_mulVec (h : m.HasFiniteEntries) {v : List α}
    (hv : ∀ x ∈ v, IsNull x) : ∀ y ∈ m.mulVec v, IsNull y := by
  intro y hy
  obtain ⟨row, hrow, rfl⟩ := List.mem_map.mp hy
  exact isNull_dot (h.of_mem_toRows hrow) hv

end Matrix

def Problem.HasFiniteCoefficients : Problem α → Prop
  | .dense w => w.HasFiniteEntries
  | .bipartite p => (∀ x ∈ p.b0, IsFinite x) ∧ (∀ x ∈ p.b1, IsFinite x) ∧ p.w.HasFiniteEntries

variable [LawfulEnergies α]

section Empty

/-- The word zero stands for the assignment without any ones. -/
theorem Bits.isNull_of_mem_reals {n : ℕ} :
    ∀ x ∈ ((Bits.ofPacked 0 n).reals : List α), IsNull x := by
  intro x hx
  obtain ⟨v, hv, rfl⟩ := List.mem_map.mp hx
  obtain ⟨i, -, rfl⟩ := List.mem_map.mp hv
  rw [if_neg (by simp)]
  exact LawfulEnergies.null_zero

theorem isNull_dot_of_isNull {xs ys : List α} (hxs : ∀ x ∈ xs, IsNull x)
    (hys : ∀ y ∈ ys, IsNull y) : IsNull (dot xs ys) :=
  isNull_dot (fun x hx => LawfulEnergies.finite_of_null x (hxs x hx)) hys

theorem Dense.isNull_quadratic {w : Matrix α} (h : w.HasFiniteEntries) (n : ℕ) :
    IsNull (quadratic w (Bits.ofPacked 0 n).reals) :=
  isNull_dot_of_isNull Bits.isNull_of_mem_reals (h.isNull_mulVec Bits.isNull_of_mem_reals)

theorem Bipartite.Coefficients.isNull_value {p : Coefficients α}
    (h : (Problem.bipartite p).HasFiniteCoefficients) (n0 n1 : ℕ) :
    IsNull (p.value (Bits.ofPacked 0 n0).reals (Bits.ofPacked 0 n1).reals) := by
  obtain ⟨h0, h1, hw⟩ := h
  apply LawfulEnergies.null_add
  · apply LawfulEnergies.null_add
    · exact isNull_dot h0 Bits.isNull_of_mem_reals
    · exact isNull_dot h1 Bits.isNull_of_mem_reals
  · exact isNull_dot_of_isNull Bits.isNull_of_mem_reals (hw.isNull_mulVec Bits.isNull_of_mem_reals)

end Empty

section Search

theorem Problem.HasFiniteCoefficients.signed {p : Bipartite.Coefficients α}
    (h : (Problem.bipartite p).HasFiniteCoefficients) (d : Direction) :
    (Problem.bipartite (p.signed d)).HasFiniteCoefficients := by
  obtain ⟨h0, h1, hw⟩ := h
  refine ⟨?_, ?_, hw.sign d⟩
  · intro x hx
    obtain ⟨y, hy, rfl⟩ := List.mem_map.mp hx
    exact (h0 y hy).sign d
  · intro x hx
    obtain ⟨y, hy, rfl⟩ := List.mem_map.mp hx
    exact (h1 y hy).sign d

/-- The search meets the empty assignment, which has no energy. -/
theorem exists_isBounded_dense {w : Matrix α} (h : w.HasFiniteEntries) {tile : ℕ}
    (htile : 0 < tile) :
    ∃ c ∈ Search.visited (F := Search.denseFamily α) w tile, isBounded c.2 = true := by
  rw [Search.visited_dense w htile]
  refine ⟨_, List.mem_map_of_mem (List.mem_range.mpr (Nat.two_pow_pos w.rows)), ?_⟩
  exact LawfulEnergies.isBounded_of_null _ (Dense.isNull_quadratic h _)

theorem exists_isBounded_bipartite {p : Bipartite.Coefficients α}
    (h : (Problem.bipartite p).HasFiniteCoefficients) {tile : ℕ × ℕ} (h0 : 0 < tile.1)
    (h1 : 0 < tile.2) :
    ∃ c ∈ Search.visited (F := Search.bipartiteFamily α) p tile, isBounded c.2 = true := by
  have hmem : (0, 0) ∈ Search.covered p.b0.length p.b1.length tile :=
    (Search.mem_covered _ _ h0 h1).mpr ⟨Nat.two_pow_pos _, Nat.two_pow_pos _⟩
  rw [Search.visited_bipartite]
  refine ⟨_, List.mem_map_of_mem hmem, ?_⟩
  exact LawfulEnergies.isBounded_of_null _ (Bipartite.Coefficients.isNull_value h _ _)

end Search

namespace Solver
variable [Transcendental α]

/-- No solver fails on a problem whose shapes fit and whose coefficients are finite, if it is small
enough for an exhaustive one and the schedule is accepted for an annealer. -/
theorem exists_solve (entropy : Random.Generator) {p : Problem α} (hv : p.validate = .ok ())
    (hp : p.HasFiniteCoefficients) {strategy : Strategy}
    (hpack : strategy = .bruteForce → p.IsPackable) (d : Direction) (seed : UInt64)
    {schedule : Schedule α} (hs : schedule.validate = .ok ()) :
    ∃ solver event outcome, create entropy p.graph strategy p d = .ok (solver, event) ∧
      ((solver.seed seed).solve schedule).result = .ok outcome := by
  cases p with
  | dense w =>
    have hw : Dense.check w = .ok () := hv
    cases strategy with
    | bruteForce =>
      have hloaded := Search.Session.setProblem_eq_ok (F := Search.denseFamily α)
        (Search.check_dense_iff.mpr ⟨hw, hpack rfl⟩) d Search.DenseSession.new
      obtain ⟨outcome, houtcome⟩ := Search.Session.exists_solve_of_isBounded
        (s := { Search.DenseSession.new with
          direction := d, problem := some (d.sign w), tally := none }) rfl
        (exists_isBounded_dense (Matrix.HasFiniteEntries.sign hp d) (Nat.succ_pos 1023))
      exact ⟨_, _, outcome, create_eq_ok (congrArg (Except.map denseSearch) hloaded), houtcome⟩
    | anneal =>
      obtain ⟨fresh, outcome, hfresh, houtcome⟩ := Anneal.Session.exists_solve_of_new
        (F := Anneal.denseFamily α) entropy (Dense.ising_eq_ok_iff.mpr ⟨hw, rfl⟩) d seed hs
      exact ⟨_, _, outcome, create_eq_ok (congrArg (Except.map denseAnneal) hfresh), houtcome⟩
  | bipartite p =>
    have hcheck : p.check = .ok () := hv
    cases strategy with
    | bruteForce =>
      have hloaded := Search.Session.setProblem_eq_ok (F := Search.bipartiteFamily α)
        (Search.check_bipartite_iff.mpr ⟨hcheck, hpack rfl⟩) d Search.BipartiteSession.new
      obtain ⟨outcome, houtcome⟩ := Search.Session.exists_solve_of_isBounded
        (s := { Search.BipartiteSession.new with
          direction := d, problem := some (p.signed d), tally := none }) rfl
        (exists_isBounded_bipartite (hp.signed d) (Nat.succ_pos 255) (Nat.succ_pos 255))
      exact ⟨_, _, outcome, create_eq_ok (congrArg (Except.map bipartiteSearch) hloaded), houtcome⟩
    | anneal =>
      have hising := Bipartite.Coefficients.ising_eq_ok_iff.mpr ⟨hcheck, rfl⟩
      obtain ⟨fresh, outcome, hfresh, houtcome⟩ := Anneal.Session.exists_solve_of_new
        (F := Anneal.bipartiteFamily α) entropy hising d seed hs
      exact ⟨_, _, outcome, create_eq_ok (congrArg (Except.map bipartiteAnneal) hfresh), houtcome⟩

end Solver

namespace Random

theorem isFinite_getD {n : ℕ} {g : Generator} (i : ℕ) :
    IsFinite ((Draw.many (Draw.coefficient (α := α)) n g).1.toArray.getD i zero) := by
  rw [Array.getD_eq_getD_getElem?, List.getElem?_toArray]
  cases hx : (Draw.many (Draw.coefficient (α := α)) n g).1[i]? with
  | none => exact isFinite_zero
  | some x =>
    exact Draw.forall_mem_many LawfulEnergies.finite_coefficient n g x (List.mem_of_getElem? hx)

theorem check_symmetric (n : ℕ) (g : Generator) :
    Dense.check (symmetric (α := α) n g).1 = .ok () := by
  have hfinite : (symmetric (α := α) n g).1.HasFiniteEntries :=
    Matrix.HasFiniteEntries.generate fun _ _ => isFinite_getD _
  have hsquare : (symmetric (α := α) n g).1.isSquare = true := beq_self_eq_true n
  have hsymmetric : (symmetric (α := α) n g).1.isSymmetric tolerance = true := by
    simp only [Matrix.isSymmetric, hsquare, Bool.true_and, List.all_eq_true, List.mem_range,
      List.mem_range'_1, decide_eq_true_eq]
    intro r hr c hc
    have hr : r < n := hr
    have hc : c < r + 1 + (n - (r + 1)) := hc.2
    rw [entry_symmetric_comm hr (by omega)]
    exact LawfulEnergies.magnitude_le_of_null _ (hfinite.entry c r)
  simp [Dense.check, hsquare, hsymmetric]

/-- Random problems fit together, and their coefficients are finite. -/
theorem accepted_problem (graph : Graph) (n0 n1 : ℕ) (g : Generator) :
    (problem (α := α) graph n0 n1 g).1.validate = .ok () ∧
      (problem (α := α) graph n0 n1 g).1.HasFiniteCoefficients := by
  have hdense : (Problem.dense (symmetric (α := α) n0 g).1).validate = .ok () ∧
      (Problem.dense (symmetric (α := α) n0 g).1).HasFiniteCoefficients :=
    ⟨check_symmetric n0 g, Matrix.HasFiniteEntries.generate fun _ _ => isFinite_getD _⟩
  cases graph with
  | dense => exact hdense
  | sparse => exact hdense
  | rbm =>
    have hcoefficient (n : ℕ) (g : Generator) :=
      Draw.forall_mem_many (LawfulEnergies.finite_coefficient (α := α)) n g
    exact ⟨check_bipartite n0 n1 g, hcoefficient n0 g, hcoefficient n1 _,
      Matrix.HasFiniteEntries.generate fun _ _ => isFinite_getD _⟩

end Random

end Qubo

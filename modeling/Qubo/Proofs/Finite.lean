import Mathlib.Tactic
import Qubo.Proofs.Solvable

/-! Problems whose energies are finite. Their coefficients are finite then, for an assignment
without ones does not hide any of them. -/
namespace Qubo
open Scalar
variable {α : Type} [Scalar α]

/-- The energy of every assignment is a finite number. -/
def Problem.HasFiniteEnergies (p : Problem α) : Prop := ∀ x e, p.energy x = .ok e → IsFinite e

variable [StaysInfinite α]

namespace Matrix

theorem HasFiniteEntries.of_mulVec {m : Matrix α} {v : List α} (hv : v.length = m.cols)
    (h : ∀ y ∈ m.mulVec v, IsFinite y) : m.HasFiniteEntries := by
  intro x hx
  obtain ⟨i, hi, rfl⟩ := Array.mem_iff_getElem.mp hx
  have hsize : i < m.rows * m.cols := m.size_eq ▸ hi
  have hcols : 0 < m.cols := Nat.pos_of_mul_pos_left (Nat.zero_lt_of_lt hsize)
  have hr : i / m.cols < m.rows := Nat.div_lt_of_lt_mul (Nat.mul_comm _ _ ▸ hsize)
  have hc : i % m.cols < m.cols := Nat.mod_lt _ hcols
  -- The entry stands in the row that its index falls into.
  have hentry : (m.row (i / m.cols))[i % m.cols]? = some m.data[i] := by
    rw [m.getElem?_row hr hc, ← m.getElem?_data hr hc, Nat.div_add_mod', Array.getElem?_eq_getElem]
  have hrow : IsFinite (dot (m.row (i / m.cols)) v) :=
    h _ (List.mem_map_of_mem (List.mem_map_of_mem (List.mem_range.mpr hr)))
  exact (isFinite_of_dot ((m.length_row hr).trans hv.symm) hrow).1 _ (List.mem_of_getElem? hentry)

/-- A finite form in two vectors has finite coefficients. -/
theorem HasFiniteEntries.of_dot {m : Matrix α} {u v : List α} (hu : u.length = m.rows)
    (hv : v.length = m.cols) (h : IsFinite (dot u (m.mulVec v))) : m.HasFiniteEntries :=
  .of_mulVec hv (isFinite_of_dot (hu.trans (m.length_mulVec v).symm) h).2

end Matrix

theorem Problem.HasFiniteEnergies.hasFiniteCoefficients {p : Problem α}
    (h : p.HasFiniteEnergies) (hv : p.validate = .ok ()) : p.HasFiniteCoefficients := by
  cases p with
  | dense w =>
    have hw : Dense.check w = .ok () := hv
    have henergy := h (.dense (.zeros w.rows)) _
      ((Dense.energy_eq_ok_iff hw).mpr ⟨Bits.size_zeros _, rfl⟩)
    have hcols := Dense.isSquare_of_check hw
    exact Matrix.HasFiniteEntries.of_dot (by simp) (by simp [hcols]) henergy
  | bipartite p =>
    have hp : p.check = .ok () := hv
    obtain ⟨hrows, hcols⟩ := Bipartite.Coefficients.check_eq_ok_iff.mp hp
    have henergy := h (.bipartite ⟨.zeros p.b0.length, .zeros p.b1.length⟩) _
      ((Bipartite.Coefficients.energy_eq_ok_iff hp).mpr
        ⟨Bits.size_zeros _, Bits.size_zeros _, rfl⟩)
    obtain ⟨hbiases, hcouplings⟩ := StaysInfinite.finite_of_add _ _ henergy
    obtain ⟨h0, h1⟩ := StaysInfinite.finite_of_add _ _ hbiases
    exact ⟨(isFinite_of_dot (by simp) h0).1, (isFinite_of_dot (by simp) h1).1,
      Matrix.HasFiniteEntries.of_dot (by simp [hrows]) (by simp [hcols]) hcouplings⟩

section Search
variable [LawfulEnergies α]

theorem Search.hasBoundedEnergy_dense {w : Matrix α} (h : (Problem.dense w).HasFiniteEnergies)
    (hw : Enumerable.check (F := denseFamily α) w = .ok ()) (d : Direction) :
    HasBoundedEnergy (F := denseFamily α) (Enumerable.signed (F := denseFamily α) w d) := by
  have hentries : w.HasFiniteEntries := h.hasFiniteCoefficients (check_dense_iff.mp hw).1
  exact fun tile => exists_isBounded_dense (hentries.sign d) (lt_max_of_lt_right one_pos)

theorem Search.hasBoundedEnergy_bipartite {p : Bipartite.Coefficients α}
    (h : (Problem.bipartite p).HasFiniteEnergies)
    (hp : Enumerable.check (F := bipartiteFamily α) p = .ok ()) (d : Direction) :
    HasBoundedEnergy (F := bipartiteFamily α) (Enumerable.signed (F := bipartiteFamily α) p d) := by
  have hcoefficients := h.hasFiniteCoefficients (check_bipartite_iff.mp hp).1
  exact fun tile => exists_isBounded_bipartite (hcoefficients.signed d)
    (lt_max_of_lt_right one_pos) (lt_max_of_lt_right one_pos)

end Search

end Qubo

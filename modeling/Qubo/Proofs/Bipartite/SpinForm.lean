import Mathlib.Tactic
import Qubo.Proofs.Bipartite
import Qubo.Proofs.Dense.SpinForm

/-! The spin form of a bipartite problem against its energy, and which shapes either is computed
for: a vector of the wrong length is named in an error before a sum could stop at its end. -/
namespace Qubo
open Finset

/-- A value where shapes fit together; elsewhere an error that names two which differ. -/
structure AnswersWhere {β : Type} (fits : Prop) (value : β) (result : Except SolverError β) :
    Prop where
  answer : fits → result = .ok value
  refusal : ¬fits → ∃ operand expected found,
    result = .error (.shapeMismatch operand expected found) ∧ expected ≠ found

namespace Bipartite

section Shapes
variable {α : Type}

/-- One row of couplings per variable of the second layer, one column per variable of the first. -/
def Coefficients.IsShaped (p : Coefficients α) : Prop :=
  p.w.rows = p.b1.length ∧ p.w.cols = p.b0.length

instance (p : Coefficients α) : Decidable p.IsShaped := inferInstanceAs (Decidable (_ ∧ _))

instance [Scalar α] (m : Ising α) : Decidable m.IsShaped := inferInstanceAs (Decidable (_ ∧ _))

/-- A problem is refused for the shape of its couplings. -/
theorem Coefficients.check_eq_error {p : Coefficients α} (h : ¬p.IsShaped) :
    p.check = .error (.shapeMismatch .bipartiteMatrix (p.b1.length, p.b0.length) p.w.shape) ∧
      (p.b1.length, p.b0.length) ≠ p.w.shape := by
  have hne : p.w.shape ≠ (p.b1.length, p.b0.length) := fun heq => h (Prod.ext_iff.mp heq)
  exact ⟨if_pos hne, hne.symm⟩

end Shapes

namespace Coefficients
variable (p : Coefficients ℚ)

/-- Every coefficient times the variables it belongs to. -/
def total (x0 x1 : List ℚ) : ℚ :=
  ∑ i ∈ range p.b0.length, p.b0[i]?.getD 0 * x0[i]?.getD 0 +
    ∑ j ∈ range p.b1.length, p.b1[j]?.getD 0 * x1[j]?.getD 0 +
    ∑ j ∈ range p.b1.length, ∑ i ∈ range p.b0.length,
      x1[j]?.getD 0 * p.w.entry j i * x0[i]?.getD 0

/-- What the substitution `x = (1 + q) / 2` makes of the coefficients. -/
def spinForm : Ising ℚ where
  h0 := (List.range p.b0.length).map fun i =>
    1 / 2 * p.b0[i]?.getD 0 + 1 / 4 * ∑ j ∈ range p.b1.length, p.w.entry j i
  h1 := (List.range p.b1.length).map fun j =>
    1 / 2 * p.b1[j]?.getD 0 + 1 / 4 * ∑ i ∈ range p.b0.length, p.w.entry j i
  j := .generate p.b1.length p.b0.length fun j i => 1 / 4 * p.w.entry j i
  c := 1 / 2 * ∑ i ∈ range p.b0.length, p.b0[i]?.getD 0 +
    1 / 2 * ∑ j ∈ range p.b1.length, p.b1[j]?.getD 0 +
    1 / 4 * ∑ j ∈ range p.b1.length, ∑ i ∈ range p.b0.length, p.w.entry j i

private theorem localField_eq {b s : List ℚ} (h : s.length = b.length) :
    localField b s = (List.range b.length).map fun i =>
      1 / 2 * b[i]?.getD 0 + 1 / 4 * s[i]?.getD 0 := by
  refine List.ext_getElem (by simp [localField, h]) fun i hi _ => ?_
  have hb : i < b.length := by simpa [localField, h] using hi
  simp [localField, hb, h ▸ hb]

theorem ising_eq_spinForm {p : Coefficients ℚ} (h : p.IsShaped) : p.ising = .ok p.spinForm := by
  obtain ⟨hr, hc⟩ := h
  have hh0 : localField p.b0 p.w.colSums = p.spinForm.h0 := by
    rw [localField_eq (p.w.length_colSums.trans hc)]
    refine List.map_congr_left fun i hi => ?_
    rw [p.w.colSums_rat (hc ▸ List.mem_range.mp hi), hr, Option.getD_some]
  have hh1 : localField p.b1 p.w.rowSums = p.spinForm.h1 := by
    rw [localField_eq (p.w.length_rowSums.trans hr)]
    refine List.map_congr_left fun j hj => ?_
    rw [p.w.rowSums_rat (hr ▸ List.mem_range.mp hj), hc, Option.getD_some]
  have hj : p.w.scale Scalar.quarter = p.spinForm.j := by
    refine Matrix.ext_entry hr hc fun j hj i hi => ?_
    rw [spinForm, Matrix.entry_generate _ (hr ▸ hj) (hc ▸ hi), Matrix.scale,
      p.w.entry_map _ hj hi, Scalar.quarter_rat, mul_comm]
  have hconstant : Scalar.half * Scalar.sum p.b0 + Scalar.half * Scalar.sum p.b1 +
      Scalar.quarter * p.w.sum = p.spinForm.c := by
    rw [Scalar.sum_eq_sum_range le_rfl, Scalar.sum_eq_sum_range le_rfl, p.w.sum_eq_rat, hr, hc,
      Scalar.half_rat, Scalar.quarter_rat]
    rfl
  refine ising_eq_ok_iff.mpr ⟨check_eq_ok_iff.mpr ⟨hr, hc⟩, ?_⟩
  rw [hh0, hh1, hj, hconstant]

theorem isShaped_spinForm : p.spinForm.IsShaped := by
  constructor <;> simp [spinForm]

theorem ising_answers : AnswersWhere p.IsShaped p.spinForm p.ising where
  answer := ising_eq_spinForm
  refusal h := by
    obtain ⟨hcheck, hne⟩ := check_eq_error h
    refine ⟨.bipartiteMatrix, _, _, ?_, hne⟩
    rw [ising, hcheck]
    rfl

theorem energy_answers (x : BitsPair) :
    AnswersWhere (p.IsShaped ∧ x.x0.size = p.b0.length ∧ x.x1.size = p.b1.length)
      (p.total x.x0.reals x.x1.reals) (p.energy x) where
  answer := by
    rintro ⟨hshape, h0, h1⟩
    have hcheck := check_eq_ok_iff.mpr hshape
    exact (energy_eq_ok_iff hcheck).mpr ⟨h0, h1, (value_rat hcheck _ _).symm⟩
  refusal h := by
    by_cases hshape : p.IsShaped
    · have hcheck := check_eq_ok_iff.mpr hshape
      by_cases h0 : x.x0.size = p.b0.length
      · have h1 : x.x1.size ≠ p.b1.length := fun h1 => h ⟨hshape, h0, h1⟩
        refine ⟨.bipartiteBits1, (1, p.b1.length), (1, x.x1.size), ?_, by simpa using h1.symm⟩
        simp [energy, hcheck, h0, h1, bind, Except.bind, throw, throwThe, MonadExceptOf.throw]
      · refine ⟨.bipartiteBits0, (1, p.b0.length), (1, x.x0.size), ?_, by simpa using Ne.symm h0⟩
        simp [energy, hcheck, h0, bind, Except.bind, throw, throwThe, MonadExceptOf.throw]
    · obtain ⟨hcheck, hne⟩ := check_eq_error hshape
      refine ⟨.bipartiteMatrix, _, _, ?_, hne⟩
      rw [energy, hcheck]
      rfl

end Coefficients

namespace Ising

/-- Every coefficient times the spins it belongs to. -/
def total (m : Ising ℚ) (q0 q1 : List ℚ) : ℚ :=
  m.c + ∑ i ∈ range m.h0.length, m.h0[i]?.getD 0 * q0[i]?.getD 0 +
    ∑ j ∈ range m.h1.length, m.h1[j]?.getD 0 * q1[j]?.getD 0 +
    ∑ j ∈ range m.h1.length, ∑ i ∈ range m.h0.length,
      q1[j]?.getD 0 * m.j.entry j i * q0[i]?.getD 0

/-- With couplings of the right shape no product is left out. -/
theorem energy_eq_total {m : Ising ℚ} (hm : m.IsShaped) (q0 q1 : List ℚ) :
    m.energy q0 q1 = m.total q0 q1 := by
  rw [energy, Scalar.dot_rat q0 le_rfl, Scalar.dot_rat q1 le_rfl,
    m.j.dot_mulVec_rat, hm.1, hm.2]
  rfl

theorem energyOf_answers (m : Ising ℚ) (q0 q1 : List ℚ) :
    AnswersWhere (q0.length = m.h0.length ∧ q1.length = m.h1.length) (m.energy q0 q1)
      (m.energyOf q0 q1) where
  answer := by
    rintro ⟨h0, h1⟩
    simp [energyOf, h0, h1, pure, Except.pure]
  refusal h := by
    by_cases h0 : q0.length = m.h0.length
    · have h1 : q1.length ≠ m.h1.length := fun h1 => h ⟨h0, h1⟩
      refine ⟨.bipartiteSpins1, (1, m.h1.length), (1, q1.length), ?_, by simpa using h1.symm⟩
      simp [energyOf, h0, h1, bind, Except.bind, throw, throwThe, MonadExceptOf.throw]
    · refine ⟨.bipartiteSpins0, (1, m.h0.length), (1, q0.length), ?_, by simpa using Ne.symm h0⟩
      simp [energyOf, h0, bind, Except.bind, throw, throwThe, MonadExceptOf.throw]

end Ising

/-- Every accepted problem has a spin form with its energy on every pair of assignments. A spin
form and an energy are given, as full sums, exactly where shapes match, and so is the energy of
spins, given couplings that have the shape of a spin form; an error names shapes that differ. -/
theorem layered_spin_form_agrees :
    (∀ p : Coefficients ℚ, p.check = .ok () → ∃ model, p.ising = .ok model ∧ model.IsShaped ∧
      ∀ x : BitsPair, x.Assigns p.b0.length p.b1.length → ∃ e, p.energy x = .ok e ∧
        model.energyOf x.x0.spins x.x1.spins = .ok e) ∧
    (∀ p : Coefficients ℚ, AnswersWhere p.IsShaped p.spinForm p.ising) ∧
    (∀ (p : Coefficients ℚ) (x : BitsPair), AnswersWhere
      (p.IsShaped ∧ x.x0.size = p.b0.length ∧ x.x1.size = p.b1.length)
      (p.total x.x0.reals x.x1.reals) (p.energy x)) ∧
    ∀ (m : Ising ℚ) (q0 q1 : List ℚ),
      AnswersWhere (q0.length = m.h0.length ∧ q1.length = m.h1.length) (m.energy q0 q1)
        (m.energyOf q0 q1) ∧
      (m.IsShaped → q1.length = m.h1.length → m.energy q0 q1 = m.total q0 q1) := by
  refine ⟨fun p hp => ?_, fun p => p.ising_answers, fun p x => p.energy_answers x,
    fun m q0 q1 => ⟨m.energyOf_answers q0 q1, fun hm _ => Ising.energy_eq_total hm q0 q1⟩⟩
  have hmodel := Coefficients.ising_eq_spinForm (Coefficients.check_eq_ok_iff.mp hp)
  obtain ⟨hh0, hh1⟩ := Coefficients.length_h_ising hmodel
  refine ⟨_, hmodel, p.isShaped_spinForm, ?_⟩
  rintro ⟨x0, x1⟩ ⟨⟨hbinary0, hsize0⟩, hbinary1, hsize1⟩
  have hlength0 : (x0.spins : List ℚ).length = p.b0.length := (Bits.length_spins x0).trans hsize0
  have hlength1 : (x1.spins : List ℚ).length = p.b1.length := (Bits.length_spins x1).trans hsize1
  have henergy := Coefficients.energy_ising hmodel hlength0 hlength1 hbinary0.spins_eq_or
    hbinary1.spins_eq_or
  rw [hbinary0.ofSpins_spins, hbinary1.ofSpins_spins] at henergy
  refine ⟨_, (Coefficients.energy_eq_ok_iff hp).mpr ⟨hsize0, hsize1, henergy⟩, ?_⟩
  exact (p.spinForm.energyOf_answers _ _).answer
    ⟨hlength0.trans hh0.symm, hlength1.trans hh1.symm⟩

/-- A layer of one variable and an empty one beside it, and a problem whose couplings are turned
around. -/
theorem layered_spin_form_agrees_of_empty :
    let p : Coefficients ℚ := ⟨[3], [], .fill 0 1 0⟩
    let turned : Coefficients ℚ := ⟨[1, 2], [4], .fill 2 1 5⟩
    let m : Ising ℚ := ⟨[1, 1], [1], .fill 1 2 5, 0⟩
    p.check = .ok () ∧ BitsPair.Assigns 1 0 ⟨⟨[1]⟩, ⟨[]⟩⟩ ∧ ¬turned.IsShaped ∧ m.IsShaped ∧
    (∃ model, p.ising = .ok model ∧ model.IsShaped ∧ ∃ e, p.energy ⟨⟨[1]⟩, ⟨[]⟩⟩ = .ok e ∧
      model.energyOf (Bits.spins ⟨[1]⟩) (Bits.spins ⟨[]⟩) = .ok e) ∧
    AnswersWhere turned.IsShaped turned.spinForm turned.ising ∧
    m.energy [1, -1] [1] = m.total [1, -1] [1] := by
  intro p turned m
  have hp : p.check = .ok () := by decide +kernel
  have hx : BitsPair.Assigns 1 0 ⟨⟨[1]⟩, ⟨[]⟩⟩ := by decide +kernel
  have hm : m.IsShaped := by decide +kernel
  obtain ⟨hagrees, hising, -, hspins⟩ := layered_spin_form_agrees
  obtain ⟨model, hmodel, hshape, henergy⟩ := hagrees p hp
  exact ⟨hp, hx, by decide +kernel, hm, ⟨model, hmodel, hshape, henergy _ hx⟩, hising turned,
    (hspins m _ _).2 hm rfl⟩

/-- Spins are not checked against the couplings: where these are too few, the sum ends early. -/
theorem energyOf_of_few_couplings :
    let m : Ising ℚ := ⟨[1, 1], [1], .fill 1 1 5, 0⟩
    ¬m.IsShaped ∧ m.energyOf [1, 1] [1] = .ok 8 := by
  decide +kernel

end Bipartite

end Qubo

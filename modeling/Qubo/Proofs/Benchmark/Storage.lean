import Mathlib
import Qubo.Proofs.Benchmark.Events
import Qubo.Proofs.Benchmark.Places
import Qubo.Proofs.Random.Instance
import Qubo.Proofs.Solver.Store

/-! A run in storage. Problems, seeds, spins and the energies of all trials have to fit in memory;
with room for them the run goes to its end, and without it nothing else goes wrong. -/
namespace Qubo.Benchmark

section Rounds
variable {α : Type} [Scalar α]

/-- There is room for each problem and for the seeds of its trials. -/
structure ProblemSection.HasRoom (p : ProblemSection) : Prop where
  problem : Random.HasRoom p.graph p.n0 p.n1
  trials : p.trials < Matrix.capacity

variable {p : ProblemSection}

end Rounds

section Solvers
variable {α : Type} [Scalar α] [Transcendental α]

end Solvers

/-- There is room for a number of slices of each problem. -/
def ProblemSection.HasSlices (p : ProblemSection) (m : ℕ) : Prop :=
  match p.graph with
  | .rbm => m * p.n0 < Matrix.capacity ∧ m * p.n1 < Matrix.capacity
  | _ => m * p.n0 < Matrix.capacity

theorem ProblemSection.HasSlices.first {p : ProblemSection} {m : ℕ} (h : p.HasSlices m) :
    m * p.n0 < Matrix.capacity := by
  unfold HasSlices at h
  cases hgraph : p.graph with
  | rbm =>
    rw [hgraph] at h
    exact h.1
  | _ =>
    rw [hgraph] at h
    exact h

/-- There is room for a run: for each problem with its slices, and for the energies of all trials,
of which the analysis makes pairs. -/
structure Config.HasRoom {α : Type} (c : Config) (bs : List (Blueprint α)) : Prop where
  problem : Random.HasRoom c.problem.graph c.problem.n0 c.problem.n1
  slices : ∀ b ∈ bs, b.strategy = .anneal → c.problem.HasSlices
    (b.schedule.trotters.getD (Anneal.defaultTrotters c.problem.size))
  rows : 2 * (c.problem.instances * c.problem.trials * c.solvers.length) < Matrix.capacity

/-- A dense problem that there is room for leaves room for as many slices as annealers take where
none are asked for. -/
theorem Config.hasRoom_of_dense {α : Type} {c : Config} {bs : List (Blueprint α)}
    (hgraph : c.problem.graph = .dense) (hn : c.problem.n0 * c.problem.n0 < Matrix.capacity)
    (htrotters : ∀ b ∈ bs, b.schedule.trotters = none)
    (hrows : 2 * (c.problem.instances * c.problem.trials * c.solvers.length) < Matrix.capacity) :
    c.HasRoom bs where
  problem := by
    rw [hgraph]
    exact hn
  slices b hb _ := by
    have hsize : c.problem.size = c.problem.n0 := by rw [ProblemSection.size, hgraph]
    have hdefault : Anneal.defaultTrotters c.problem.n0 * c.problem.n0 ≤
        c.problem.n0 * c.problem.n0 := by
      rcases Nat.eq_zero_or_pos c.problem.n0 with hzero | hpos
      · rw [hzero, mul_zero, mul_zero]
      · exact Nat.mul_le_mul_right _ (max_le (Nat.div_le_self ..) hpos)
    rw [htrotters b hb, Option.getD_none, hsize, ProblemSection.HasSlices, hgraph]
    exact hdefault.trans_lt hn
  rows := hrows

section Runs
variable {α : Type} [Scalar α]

variable {c : Config} {bs : List (Blueprint α)}

/-- A problem that there is room for has as many variables as are counted. -/
theorem ProblemSection.HasRoom.size_lt {p : ProblemSection} (h : p.HasRoom) :
    p.size < UInt64.size := by
  obtain ⟨hproblem, -⟩ := h
  unfold Random.HasRoom Matrix.capacity at hproblem
  unfold size UInt64.size
  cases hgraph : p.graph with
  | rbm =>
    rw [hgraph] at hproblem
    obtain ⟨h0, h1, -⟩ := hproblem
    show p.n0 + p.n1 < _
    omega
  | _ =>
    rw [hgraph] at hproblem
    have hle := Nat.le_mul_self p.n0
    show p.n0 < _
    omega

theorem Config.Equipped.pos (h : c.Equipped bs) :
    0 < c.problem.instances ∧ 0 < c.problem.trials ∧ 0 < c.solvers.length := by
  obtain ⟨-, hne, -, hproblem, -⟩ := check_eq_ok_iff.mp h.accepted
  obtain ⟨-, -, -, hinstances, htrials, -⟩ := checkProblem_eq_ok_iff.mp hproblem
  exact ⟨hinstances, htrials, List.length_pos_iff.mpr hne⟩

theorem Config.Equipped.problem_hasRoom (h : c.Equipped bs) (hroom : c.HasRoom bs) :
    c.problem.HasRoom where
  problem := hroom.problem
  trials := by
    obtain ⟨hinstances, -, hsolvers⟩ := h.pos
    have hrows := hroom.rows
    have htrials : c.problem.trials ≤ c.problem.instances * c.problem.trials :=
      Nat.le_mul_of_pos_left _ hinstances
    have hle := htrials.trans (Nat.le_mul_of_pos_right _ hsolvers)
    omega

variable [Transcendental α] [LawfulEnergies α] {m : Type → Type} [Monad m] [LawfulMonad m]

end Runs

end Qubo.Benchmark

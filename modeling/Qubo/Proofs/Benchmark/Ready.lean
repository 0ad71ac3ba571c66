import Mathlib.Tactic
import Qubo.Benchmark.Run
import Qubo.Proofs.Benchmark.Rounds
import Qubo.Proofs.Benchmark.Run
import Qubo.Proofs.Benchmark.Schedule
import Qubo.Proofs.Solvable

/-! Configurations that are ready to run: accepted, with an accepted schedule for each configured
solver, and as many variables as were counted. Whatever the random problems are, none of their
solvers can fail on them. -/
namespace Qubo.Benchmark

/-- An accepted configuration with blueprints of its solvers, in their order. -/
structure Config.Equipped {α : Type} [Scalar α] (c : Config) (bs : List (Blueprint α)) :
    Prop where
  accepted : c.check.result = .ok ()
  solvers : bs.map (fun b => (b.name, b.strategy)) = c.solvers.map (fun s => (s.name, s.strategy))
  schedules : ∀ b ∈ bs, b.schedule.validate = .ok ()

/-- One whose exhaustive solvers were accepted by the true number of variables. -/
structure Config.Ready {α : Type} [Scalar α] (c : Config) (bs : List (Blueprint α)) : Prop
    extends c.Equipped bs where
  counted : .bruteForce ∈ c.solvers.map (·.strategy) → c.problem.size < UInt64.size

namespace Config.Equipped
variable {α : Type} [Scalar α] {c : Config} {bs : List (Blueprint α)}

theorem map_name (h : c.Equipped bs) : bs.map (·.name) = c.solvers.map (·.name) := by
  have hnames := congrArg (List.map Prod.fst) h.solvers
  rwa [List.map_map, List.map_map] at hnames

theorem nodup (h : c.Equipped bs) : (bs.map (·.name)).Nodup := by
  obtain ⟨-, -, hsolvers, -⟩ := check_eq_ok_iff.mp h.accepted
  rw [h.map_name]
  exact (nodup_of_checkSolvers hsolvers).1

theorem ne_nil (h : c.Equipped bs) : bs ≠ [] := by
  obtain ⟨-, hne, -⟩ := check_eq_ok_iff.mp h.accepted
  rintro rfl
  exact hne (List.map_eq_nil_iff.mp h.map_name.symm)

theorem map_strategy (h : c.Equipped bs) : bs.map (·.strategy) = c.solvers.map (·.strategy) := by
  have hstrategies := congrArg (List.map Prod.snd) h.solvers
  rwa [List.map_map, List.map_map] at hstrategies

theorem exists_baseline (h : c.Equipped bs) :
    ∃ baseline, c.metrics.baseline = some baseline ∧ baseline ∈ bs.map (·.name) := by
  obtain ⟨-, -, -, -, -, hmetrics⟩ := check_eq_ok_iff.mp h.accepted
  obtain ⟨baseline, hbaseline, hmem, -⟩ := checkMetrics_eq_ok_iff.mp hmetrics
  rw [map_checkSolvers SolverSection.name_settled, ← h.map_name] at hmem
  exact ⟨baseline, hbaseline, hmem⟩

variable [Transcendental α]

/-- A configuration is ready if all its solvers have once succeeded in a round. -/
theorem ready_of_outcomes (h : c.Equipped bs) {r : Round α} (hr : r ∈ rounds c.problem)
    (hsolve : ∀ b ∈ bs, ∃ outcome, (solveRound c.problem r b).1 = .ok outcome) : c.Ready bs := by
  refine ⟨h, fun hsearch => ?_⟩
  rw [← h.map_strategy] at hsearch
  obtain ⟨b, hb, hstrategy⟩ := List.mem_map.mp hsearch
  obtain ⟨outcome, houtcome⟩ := hsolve b hb
  obtain ⟨g, hg⟩ := exists_problem_of_mem_rounds hr
  have hpack := isPackable_of_solveRound houtcome hstrategy
  rw [hg] at hpack
  exact size_lt_of_isPackable hpack

end Config.Equipped

namespace Config.Ready
variable {α : Type} [Scalar α] {c : Config} {bs : List (Blueprint α)} [LawfulEnergies α]
  [Transcendental α]

/-- Every solver solves the problem of every round. -/
theorem exists_outcome (h : c.Ready bs) {r : Round α} (hr : r ∈ rounds c.problem)
    {b : Blueprint α} (hb : b ∈ bs) : ∃ outcome, (solveRound c.problem r b).1 = .ok outcome := by
  obtain ⟨g, hg⟩ := exists_problem_of_mem_rounds hr
  have hgraph := graph_of_mem_rounds h.accepted hr
  obtain ⟨hvalid, hfinite⟩ :=
    Random.accepted_problem (α := α) c.problem.graph c.problem.n0 c.problem.n1 g
  rw [← hg] at hvalid hfinite
  have hpack (hstrategy : b.strategy = .bruteForce) : r.problem.IsPackable := by
    have hsearch : .bruteForce ∈ c.solvers.map (·.strategy) :=
      h.map_strategy ▸ List.mem_map.mpr ⟨b, hb, hstrategy⟩
    exact isPackable_of_mem_rounds h.accepted (h.counted hsearch) hsearch hr
  obtain ⟨solver, event, outcome, hcreate, hsolve⟩ := Solver.exists_solve
    (.ofSeed r.solverSeed) hvalid hfinite hpack c.problem.direction r.solverSeed
    (h.schedules b hb)
  refine ⟨outcome, ?_⟩
  unfold solveRound
  rw [← hgraph, hcreate]
  exact hsolve

end Config.Ready

/-- Blueprints that have been read from an accepted configuration, after it has been settled. -/
theorem equipped_of_ofSections {c : Config} {bs : List (Blueprint Float)}
    (hc : c.check.result = .ok ()) (hbs : Blueprint.ofSections c.solvers = .ok bs) :
    c.Equipped bs where
  accepted := hc
  solvers := by
    refine (Result.map_eq_of_forall₂ (Result.forall₂_of_mapM_eq_ok hbs) fun s b hb => ?_).symm
    obtain ⟨schedule, -, hb⟩ := Result.bind_eq_ok_iff.mp hb
    obtain rfl := Except.ok.inj hb
    rfl
  schedules := validate_of_ofSections hbs

end Qubo.Benchmark

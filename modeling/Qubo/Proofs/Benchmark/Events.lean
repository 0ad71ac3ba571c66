import Mathlib.Tactic
import Qubo.Proofs.Benchmark.Places
import Qubo.Proofs.Events
import Qubo.Proofs.Telemetry.Records

/-! What a run leaves in the log: for each solver of each round one event that it was created and
one that it came to its end, and for each round a trial of every solver. -/
namespace Qubo

theorem SolverEvent.HasWords.record {e : SolverEvent Float} (h : e.HasWords) :
    (Log.ofSolverEvent e).HasWords := by
  have hextent {extent : Extent} (h : extent.variableCount < UInt64.size) :
      ∀ f ∈ Log.extentFields extent, f.2.IsWord := by
    cases extent with
    | dense n =>
      have h : n < UInt64.size := h
      simp [Log.extentFields, Log.Value.IsWord, h]
    | bipartite n0 n1 =>
      have h : n0 + n1 < UInt64.size := h
      have h0 : n0 < UInt64.size := by omega
      have h1 : n1 < UInt64.size := by omega
      simp [Log.extentFields, Log.Value.IsWord, h0, h1]
  intro f hf
  cases e with
  | created graph strategy d count =>
    simp only [Log.ofSolverEvent, List.mem_cons, List.not_mem_nil, or_false] at hf
    rcases hf with rfl | rfl | rfl | rfl
    all_goals trivial
  | searched extent d best optima =>
    simp only [Log.ofSolverEvent, List.mem_append, List.mem_cons, List.not_mem_nil,
      or_false] at hf
    rcases hf with ((rfl | rfl) | hf) | rfl | rfl
    any_goals trivial
    · exact hextent h.1 f hf
    · exact h.2
  | annealed extent d trotters best =>
    simp only [Log.ofSolverEvent, List.mem_append, List.mem_cons, List.not_mem_nil,
      or_false] at hf
    rcases hf with (((rfl | rfl) | hf) | rfl) | hf
    any_goals trivial
    · exact hextent h.1 f hf
    · exact h.2
    · obtain ⟨e, -, rfl⟩ := Option.map_eq_some_iff.mp (Option.mem_toList.mp hf)
      trivial

namespace Benchmark

theorem variableCount_problem {α : Type} [Scalar α] (p : ProblemSection) (g : Random.Generator) :
    (Random.problem (α := α) p.graph p.n0 p.n1 g).1.variableCount = p.size := by
  unfold ProblemSection.size
  cases p.graph with
  | rbm =>
    exact congrArg₂ (· + ·) (Random.length_b0_bipartite p.n0 p.n1 g)
      (Random.length_b1_bipartite p.n0 p.n1 g)
  | _ => rfl

/-- What a run counts in its log fits a machine word. -/
structure Config.HasWords {α : Type} (c : Config) (bs : List (Blueprint α)) : Prop where
  size : c.problem.size < UInt64.size
  trotters : ∀ b ∈ bs, ∀ n, b.schedule.trotters = some n → n < UInt64.size

theorem length_rounds {α : Type} [Scalar α] (p : ProblemSection) :
    (rounds (α := α) p).length = p.instances * p.trials := by
  simp [rounds_eq]

section Rounds
variable {α : Type} [Scalar α] [Transcendental α] [LawfulEnergies α] {c : Config}
  {bs : List (Blueprint α)}

/-- A solver leaves two events in a round: the second one ends its run. -/
theorem Config.Ready.exists_events (h : c.Ready bs) (hwords : c.HasWords bs) {r : Round α}
    (hr : r ∈ rounds c.problem) {b : Blueprint α} (hb : b ∈ bs) :
    ∃ created ended, (solveRound c.problem r b).2 = [created, ended] ∧
      created.solvedBy? = none ∧ ended.solvedBy? = some b.strategy ∧
      created.HasWords ∧ ended.HasWords := by
  obtain ⟨g, hg⟩ := exists_problem_of_mem_rounds hr
  have hcount : r.problem.variableCount < UInt64.size := by
    rw [hg, variableCount_problem]
    exact hwords.size
  obtain ⟨outcome, houtcome⟩ := h.exists_outcome hr hb
  unfold solveRound at houtcome ⊢
  split at houtcome
  · cases houtcome
  next solver created hcreate =>
    obtain ⟨hload, rfl⟩ := Solver.load_of_create hcreate
    obtain ⟨ended, hevents, hended, hword⟩ := Solver.exists_event_of_load hload hcount
      (hwords.trotters b hb) r.solverSeed houtcome
    exact ⟨_, ended, congrArg (_ :: ·) hevents, rfl, hended, hcount, hword⟩

/-- Each solver ends as many runs as there are rounds. -/
theorem Config.Ready.countP_events (h : c.Ready bs) (hwords : c.HasWords bs)
    (strategy : Strategy) :
    ((rounds c.problem).flatMap fun r => bs.flatMap fun b => (solveRound c.problem r b).2).countP
        (fun e => e.solvedBy? = some strategy) =
      c.problem.instances * c.problem.trials * bs.countP (fun b => b.strategy = strategy) := by
  have hround (r : Round α) (hr : r ∈ rounds c.problem) (bs' : List (Blueprint α))
      (hbs : bs' ⊆ bs) : (bs'.flatMap fun b => (solveRound c.problem r b).2).countP
        (fun e => e.solvedBy? = some strategy) = bs'.countP (fun b => b.strategy = strategy) := by
    induction bs' with
    | nil => rfl
    | cons b bs' ih =>
      obtain ⟨hb, hbs⟩ := List.cons_subset.mp hbs
      obtain ⟨created, ended, hevents, hcreated, hended, -⟩ := h.exists_events hwords hr hb
      rw [List.flatMap_cons, List.countP_append, ih hbs, List.countP_cons, hevents]
      simp [List.countP_cons, hcreated, hended, Nat.add_comm]
  have hrounds := List.map_congr_left fun r hr => hround r hr bs (List.Subset.refl bs)
  rw [List.countP_flatMap, Function.comp_def, hrounds, List.map_const', List.sum_replicate,
    length_rounds, smul_eq_mul]

omit [LawfulEnergies α] in
/-- A row for each round and each solver. -/
theorem Written.count_solver {rows : List (Row α)} (hc : c.Ready bs)
    (h : Written c bs (rounds c.problem) rows) {name : String}
    (hname : name ∈ c.solvers.map (·.name)) :
    (rows.map (·.result.solver)).count name = c.problem.instances * c.problem.trials := by
  have hsolvers : rows.map (·.result.solver) =
      (rounds (α := α) c.problem).flatMap fun _ => c.solvers.map (·.name) := by
    have hplaces := congrArg (List.map fun place : ℕ × ℕ × String => place.2.2) h.map_place
    rw [List.map_map, List.map_flatMap, hc.map_name] at hplaces
    simpa [Function.comp_def, Row.place] using hplaces
  have hone : (c.solvers.map (·.name)).count name = 1 :=
    List.count_eq_one_of_mem (hc.map_name ▸ hc.nodup) hname
  rw [hsolvers, List.count_flatMap, Function.comp_def, hone, List.map_const', List.sum_replicate,
    length_rounds, smul_eq_mul, mul_one]

end Rounds

end Benchmark

end Qubo

import Mathlib.Tactic
import Qubo.Benchmark.Run
import Qubo.Proofs.Benchmark.Config
import Qubo.Proofs.Benchmark.Round

/-! Exhaustive search as a measure of annealing: it is never beaten by more than the tolerance, so
that in every run of an accepted configuration each exhaustive solver scores a hit. -/
namespace Qubo.Benchmark

theorem exists_problem_of_mem_rounds {α : Type} [Scalar α] {p : ProblemSection} {r : Round α}
    (hr : r ∈ rounds p) : ∃ g, r.problem = (Random.problem p.graph p.n0 p.n1 g).1 := by
  obtain ⟨⟨⟨problem, seed⟩, index⟩, hmem, hr⟩ := List.mem_flatMap.mp hr
  obtain ⟨⟨solverSeed, trialIndex⟩, -, rfl⟩ := List.mem_map.mp hr
  have hdraw (g : Random.Generator) : ∃ g', (drawInstance (α := α) p g).1.1 =
      (Random.problem p.graph p.n0 p.n1 g').1 := ⟨g, rfl⟩
  exact Random.Draw.forall_mem_many (P := fun x => ∃ g, x.1 =
    (Random.problem p.graph p.n0 p.n1 g).1) hdraw _ _ _ (List.fst_mem_of_mem_zipIdx hmem)

theorem layers_le_size (p : ProblemSection) : p.n0 ≤ p.size ∧ (p.n1 ≤ p.size ∨ p.graph ≠ .rbm) := by
  unfold ProblemSection.size
  cases p.graph <;> simp

theorem variableCount_eq_size {p : ProblemSection} (h : p.size < UInt64.size) :
    p.variableCount = p.size := Nat.mod_eq_of_lt h

/-- The problems of an accepted configuration are of its graph family. -/
theorem graph_of_mem_rounds {α : Type} [Scalar α] {c : Config} (hc : c.check.result = .ok ())
    {r : Round α} (hr : r ∈ rounds c.problem) : r.problem.graph = c.problem.graph := by
  obtain ⟨g, hg⟩ := exists_problem_of_mem_rounds hr
  obtain ⟨solvers, -, hproblem⟩ := exists_checkProblem_of_check hc
  obtain ⟨hsparse, -⟩ := checkProblem_eq_ok_iff.mp hproblem
  rw [hg]
  exact Random.graph_problem hsparse _ _ g

/-- They are small enough for exhaustive search if one of its solvers is exhaustive, unless their
variables are more than a word counts. -/
theorem isPackable_of_mem_rounds {α : Type} [Scalar α] {c : Config}
    (hc : c.check.result = .ok ()) (hsize : c.problem.size < UInt64.size)
    (hsearch : .bruteForce ∈ c.solvers.map (·.strategy)) {r : Round α}
    (hr : r ∈ rounds c.problem) : r.problem.IsPackable := by
  obtain ⟨g, hg⟩ := exists_problem_of_mem_rounds hr
  obtain ⟨solvers, hstrategies, hproblem⟩ := exists_checkProblem_of_check hc
  obtain ⟨-, -, -, -, -, hcount⟩ := checkProblem_eq_ok_iff.mp hproblem
  have hcount : c.problem.size ≤ Bits.maxPacked := by
    rw [← variableCount_eq_size hsize]
    exact (hcount (hstrategies ▸ hsearch)).trans (by decide)
  obtain ⟨h0, h1⟩ := layers_le_size c.problem
  rw [hg]
  exact Random.isPackable_problem (h0.trans hcount) (h1.imp_left fun h => h.trans hcount) g

/-- Conversely, random problems that can be packed have no more variables than a word counts. -/
theorem size_lt_of_isPackable {α : Type} [Scalar α] {p : ProblemSection} {g : Random.Generator}
    (h : (Random.problem (α := α) p.graph p.n0 p.n1 g).1.IsPackable) :
    p.size < UInt64.size := by
  have hbound : 2 * Bits.maxPacked < UInt64.size := by decide
  unfold ProblemSection.size
  cases hgraph : p.graph with
  | rbm =>
    rw [hgraph] at h
    have h0 := (Random.length_b0_bipartite p.n0 p.n1 g).symm.trans_le h.1
    have h1 := (Random.length_b1_bipartite p.n0 p.n1 g).symm.trans_le h.2
    show p.n0 + p.n1 < _
    omega
  | _ =>
    rw [hgraph] at h
    have h : p.n0 ≤ Bits.maxPacked := h
    show p.n0 < _
    omega

theorem isExact_of_mem_rounds {p : ProblemSection} {r : Round ℚ} (hr : r ∈ rounds p) :
    r.problem.IsExact := by
  obtain ⟨g, hg⟩ := exists_problem_of_mem_rounds hr
  exact hg ▸ Random.isExact_problem _ _ _ g

/-- In a round that makes a trial no solver has failed. -/
theorem exists_outcome_of_trial {α : Type} [Scalar α] {d : Direction} {f : Blueprint α → Attempt α}
    {bs : List (Blueprint α)} {t : Trial α}
    (h : Round.trial d (Id.run (attemptAll (fun b => pure (f b)) bs)) = .ok t) :
    ∀ b ∈ bs, ∃ outcome, (f b).result = .ok outcome := by
  obtain ⟨results, hresults, -⟩ := Result.bind_eq_ok_iff.mp h
  exact exists_outcome_of_results hresults

/-- An exhaustive solver only solves problems that can be packed. -/
theorem isPackable_of_solveRound {α : Type} [Scalar α] [Transcendental α] {p : ProblemSection}
    {r : Round α} {b : Blueprint α} {outcome : Outcome α}
    (h : (solveRound p r b).1 = .ok outcome) (hsearch : b.strategy = .bruteForce) :
    r.problem.IsPackable := by
  rw [solveRound, hsearch] at h
  split at h
  · cases h
  next solver event hcreate =>
    exact Solver.isPackable_of_load (Solver.load_of_create hcreate).1

/-- A round adds the rows of its trial or none. -/
theorem rows_addRound {α : Type} [Scalar α] (c : Config) (p : Progress α) (r : Round α)
    (as : List (Attempt α)) : (p.addRound c r as).1.rows = p.rows ∨
      ∃ t, Round.trial c.problem.direction as = .ok t ∧ (p.addRound c r as).1.rows =
        p.rows ++ (t.results.map (Progress.row c r t)).toArray := by
  unfold Progress.addRound
  cases htrial : Round.trial c.problem.direction as with
  | error e => exact Or.inl rfl
  | ok t =>
    dsimp only
    split
    · exact Or.inl rfl
    · exact Or.inr ⟨t, rfl, rfl⟩

/-- What holds of the rows of every trial holds of all rows of a run. -/
theorem forall_rows_runRounds {α : Type} [Scalar α] {P : Row α → Prop} {c : Config}
    {bs : List (Blueprint α)} {solve : Round α → Blueprint α → Id (Attempt α)}
    {rs : List (Round α)} (h : ∀ r ∈ rs, ∀ t,
      Round.trial c.problem.direction (Id.run (attemptAll (solve r) bs)) = .ok t →
        ∀ result ∈ t.results, P (Progress.row c r t result))
    {p : Progress α} (hp : ∀ row ∈ p.rows, P row) :
    ∀ row ∈ (Id.run (runRounds c bs solve p rs)).1.rows, P row := by
  induction rs generalizing p with
  | nil => exact hp
  | cons r rs ih =>
    have hadd : ∀ row ∈ (p.addRound c r (Id.run (attemptAll (solve r) bs))).1.rows, P row := by
      rcases rows_addRound c p r (Id.run (attemptAll (solve r) bs)) with hrows | ⟨t, ht, hrows⟩
      · rwa [hrows]
      · intro row hrow
        rw [hrows, Array.mem_append] at hrow
        rcases hrow with hrow | hrow
        · exact hp row hrow
        · obtain ⟨result, hresult, rfl⟩ := List.mem_map.mp (List.mem_toArray.mp hrow)
          exact h r List.mem_cons_self t ht result hresult
    rcases hround : p.addRound c r (Id.run (attemptAll (solve r) bs)) with ⟨p', fault | ⟨⟩⟩
    · have hrun : Id.run (runRounds c bs solve p (r :: rs)) = (p', .error fault) := by
        simp only [runRounds, Id.run_bind, hround, Id.run_pure]
      rw [hround] at hadd
      rw [hrun]
      exact hadd
    · have hrun : Id.run (runRounds c bs solve p (r :: rs)) =
          Id.run (runRounds c bs solve p' rs) := by
        simp only [runRounds, Id.run_bind, hround]
      rw [hround] at hadd
      rw [hrun]
      exact ih (fun r hr => h r (List.mem_cons_of_mem _ hr)) hadd

/-- Exhaustive search bounds annealing, whatever the exponential, the hyperbolic tangent and the
logarithm are: on one problem in one direction the exhaustive solver's best energy is never worse
than the annealer's by more than the tolerance. Hence each exhaustive solver of a round, whichever
solvers it is run with, has no larger gap to the best known energy and is credited with a hit; and
so says every row that the run of an accepted configuration writes for it. -/
theorem search_bounds_annealing [Transcendental ℚ] :
    (∀ (p : Problem ℚ) (d : Direction) (seed : UInt64) (schedule : Schedule ℚ)
      (entropy entropy' : Random.Generator),
      p.IsExact → p.IsPackable → schedule.validate = .ok () →
      ∃ searcher annealer event event' searched annealed,
        Solver.create entropy p.graph .bruteForce p d = .ok (searcher, event) ∧
        Solver.create entropy' p.graph .anneal p d = .ok (annealer, event') ∧
        ((searcher.seed seed).solve schedule).result = .ok searched ∧
        ((annealer.seed seed).solve schedule).result = .ok annealed ∧
        d.sign (searched.bestEnergy - annealed.bestEnergy) ≤ Scalar.tolerance) ∧
    (∀ (c : Config) (r : Round ℚ) (bs : List (Blueprint ℚ)) (elapsedMs : Blueprint ℚ → ℚ),
      r.problem.IsExact → r.problem.graph = c.problem.graph → bs ≠ [] →
      (∀ b ∈ bs, Admits r.problem b) →
      ∃ t, Round.trial c.problem.direction (attempts c.problem r elapsedMs bs) = .ok t ∧
        t.results.map (fun x => (x.solver, x.strategy)) = bs.map (fun b => (b.name, b.strategy)) ∧
        ∀ result ∈ t.results, result.strategy = .bruteForce →
          t.gap c.problem.direction result.energy ≤ Scalar.tolerance ∧
          (Progress.row c r t result).hit = true ∧
          ∀ account : Account ℚ, (account.credit result
            (t.gap c.problem.direction result.energy)).hits = account.hits + 1) ∧
    (∀ (c : Config) (bs : List (Blueprint ℚ)) (elapsedMs : Round ℚ → Blueprint ℚ → ℚ)
      (start : Progress ℚ), c.check.result = .ok () →
      bs.map (fun b => (b.name, b.strategy)) = c.solvers.map (fun s => (s.name, s.strategy)) →
      (∀ b ∈ bs, b.schedule.validate = .ok ()) → start.rows = #[] →
      ∀ row ∈ (run c bs elapsedMs start).1.rows, row.result.strategy = .bruteForce →
        row.gap ≤ Scalar.tolerance ∧ row.hit = true) := by
  refine ⟨?_, ?_, ?_⟩
  · intro p d seed schedule entropy entropy' hexact hpack hv
    obtain ⟨searcher, event, searched, hcreate, hsolve, -, hnear⟩ :=
      Solver.exists_search entropy hexact hpack d seed schedule
    obtain ⟨annealer, event', annealed, hcreate', hsolve', hattained⟩ :=
      Solver.exists_anneal entropy' hexact d seed hv
    exact ⟨searcher, annealer, event, event', searched, annealed, hcreate, hcreate', hsolve,
      hsolve', hnear _ hattained⟩
  · intro c r bs elapsedMs hexact hgraph hne hbs
    obtain ⟨t, ht, hreach, hbest⟩ := exists_trial_eq_ok hexact hgraph hne hbs elapsedMs
    refine ⟨t, ht, map_solver_eq hreach, fun result hresult hsearch => ?_⟩
    have hgap := gap_le_of_reaches hreach hbest hresult hsearch
    exact ⟨hgap, isHit_rat.mpr hgap, fun account => hits_credit account result hgap⟩
  · intro c bs elapsedMs start hc hsolvers hv hstart
    refine forall_rows_runRounds (P := fun row => row.result.strategy = .bruteForce →
      row.gap ≤ Scalar.tolerance ∧ row.hit = true) ?_ (by simp [hstart])
    intro r hr t ht result hresult hsearch
    have hexact := isExact_of_mem_rounds hr
    have hgraph := graph_of_mem_rounds hc hr
    have hbs : ∀ b ∈ bs, Admits r.problem b := by
      intro b hb
      obtain ⟨outcome, houtcome⟩ := exists_outcome_of_trial ht b hb
      exact ⟨isPackable_of_solveRound houtcome, hv b hb⟩
    have hne : bs ≠ [] := by
      rintro rfl
      cases ht
    obtain ⟨t', ht', hreach, hbest⟩ := exists_trial_eq_ok hexact hgraph hne hbs (elapsedMs r)
    obtain rfl := Except.ok.inj (ht'.symm.trans ht)
    have hgap := gap_le_of_reaches hreach hbest hresult hsearch
    exact ⟨hgap, isHit_rat.mpr hgap⟩

/-- An exhaustive solver and an annealer on two variables that reward each other's absence, and in
a run of random problems of three variables. -/
theorem search_bounds_annealing_of_rivals :
    letI : Transcendental ℚ := ⟨id, id, id, id⟩
    let p : Problem ℚ := .dense (.generate 2 2 fun r c => if r = c then 1 else -2)
    let r : Round ℚ := ⟨0, 0, 1, 2, p⟩
    let bs : List (Blueprint ℚ) :=
      [⟨"exhaustive", .bruteForce, .standard⟩, ⟨"annealed", .anneal, .standard⟩]
    let c : Config := ⟨"rivals", ⟨.dense, 3, 0, none, 2, 2, .maximize⟩,
      [⟨"exhaustive", .bruteForce, .null⟩, ⟨"annealed", .anneal, .null⟩],
      ⟨"rows", "summary", "plots"⟩, ⟨some "exhaustive", 1⟩, .standard⟩
    (p.IsExact ∧ p.IsPackable ∧ (Schedule.standard : Schedule ℚ).validate = .ok () ∧
      ∃ searcher annealer event event' searched annealed,
        Solver.create (.ofSeed 3) p.graph .bruteForce p .maximize = .ok (searcher, event) ∧
        Solver.create (.ofSeed 4) p.graph .anneal p .maximize = .ok (annealer, event') ∧
        ((searcher.seed 7).solve .standard).result = .ok searched ∧
        ((annealer.seed 7).solve .standard).result = .ok annealed ∧
        Direction.maximize.sign (searched.bestEnergy - annealed.bestEnergy) ≤
          Scalar.tolerance) ∧
    (r.problem.graph = c.problem.graph ∧ bs ≠ [] ∧ (∀ b ∈ bs, Admits r.problem b) ∧
      ∃ t, Round.trial c.problem.direction (attempts c.problem r (fun _ => 0) bs) = .ok t ∧
        t.results.map (fun x => (x.solver, x.strategy)) = bs.map (fun b => (b.name, b.strategy)) ∧
        ∀ result ∈ t.results, result.strategy = .bruteForce →
          t.gap c.problem.direction result.energy ≤ Scalar.tolerance ∧
          (Progress.row c r t result).hit = true ∧
          ∀ account : Account ℚ, (account.credit result
            (t.gap c.problem.direction result.energy)).hits = account.hits + 1) ∧
    c.check.result = .ok () ∧
    bs.map (fun b => (b.name, b.strategy)) = c.solvers.map (fun s => (s.name, s.strategy)) ∧
    ∀ collector : Collector ℚ,
      ∀ row ∈ (run c bs (fun _ _ => 0) ⟨collector, #[], #[]⟩).1.rows,
        row.result.strategy = .bruteForce → row.gap ≤ Scalar.tolerance ∧ row.hit = true := by
  intro p r bs c
  let _ : Transcendental ℚ := ⟨id, id, id, id⟩
  have hexact : p.IsExact := show Matrix.IsMirrored _ by decide
  have hpack : p.IsPackable := show (2 : ℕ) ≤ 63 by decide
  have hv : (Schedule.standard : Schedule ℚ).validate = .ok () :=
    Schedule.validate_eq_ok_iff.mpr (by decide +kernel)
  have hbs : ∀ b ∈ bs, b.schedule.validate = .ok () := by simp [bs, hv]
  have hc : c.check.result = .ok () := by decide +kernel
  obtain ⟨hbound, htrial, hrun⟩ := search_bounds_annealing
  exact ⟨⟨hexact, hpack, hv, hbound p .maximize 7 .standard _ _ hexact hpack hv⟩,
    ⟨rfl, by simp [bs], fun b hb => ⟨fun _ => hpack, hbs b hb⟩,
      htrial c r bs _ hexact rfl (by simp [bs]) fun b hb => ⟨fun _ => hpack, hbs b hb⟩⟩,
    hc, rfl, fun collector => hrun c bs _ _ hc rfl hbs rfl⟩

end Qubo.Benchmark

import Mathlib.Tactic
import Qubo.Benchmark.Run
import Qubo.Proofs.Result
import Qubo.Proofs.Solver

/-! One round of a benchmark over exact arithmetic: every solver succeeds, each reaches the energy
of some assignment, and an exhaustive one is never beaten by more than the tolerance. -/
namespace Qubo.Benchmark

/-- What a solver of a blueprint reaches on a problem. -/
structure Reaches (p : Problem ℚ) (d : Direction) (b : Blueprint ℚ) (result : SolverResult ℚ) :
    Prop where
  solver_eq : result.solver = b.name
  strategy_eq : result.strategy = b.strategy
  attained : p.IsAttained result.energy
  nearOptimal : b.strategy = .bruteForce → p.IsNearOptimal d result.energy

theorem gap_rat (t : Trial ℚ) (d : Direction) (e : ℚ) :
    t.gap d e = max 0 (d.sign (e - t.bestKnown)) :=
  Scalar.clampNegative_rat _

theorem attemptAll_eq_map {α : Type} {f : Blueprint α → Attempt α} {bs : List (Blueprint α)}
    (h : ∀ b ∈ bs, (f b).result.toBool = true) :
    attemptAll (m := Id) (fun b => pure (f b)) bs = pure (bs.map f) := by
  induction bs with
  | nil => rfl
  | cons b bs ih =>
    rw [attemptAll, ih fun b hb => h b (List.mem_cons_of_mem _ hb)]
    simp [h b List.mem_cons_self]

/-- Attempts that all have a result are those of all blueprints, none of which has failed. -/
theorem exists_outcome_of_results {α : Type} {f : Blueprint α → Attempt α}
    {bs : List (Blueprint α)} {results : List (SolverResult α)}
    (h : (Id.run (attemptAll (fun b => pure (f b)) bs)).mapM Attempt.result? = .ok results) :
    ∀ b ∈ bs, ∃ outcome, (f b).result = .ok outcome := by
  induction bs generalizing results with
  | nil => simp
  | cons b bs ih =>
    rw [attemptAll, pure_bind] at h
    cases hb : (f b).result with
    | error e =>
      have hstop : (f b).result? = .error e := by rw [Attempt.result?, hb]; rfl
      rw [hb] at h
      obtain ⟨x, hx, -⟩ := Result.bind_eq_ok_iff.mp ((List.mapM_cons ..).symm.trans h)
      exact nomatch hstop.symm.trans hx
    | ok outcome =>
      rw [hb] at h
      obtain ⟨x, -, hrest⟩ := Result.bind_eq_ok_iff.mp ((List.mapM_cons ..).symm.trans h)
      obtain ⟨xs, hxs, -⟩ := Result.bind_eq_ok_iff.mp hrest
      exact List.forall_mem_cons.mpr ⟨⟨outcome, hb⟩, ih hxs⟩

section
variable {d : Direction} {results : List (SolverResult ℚ)}

/-- The best known energy is that of one of the results. -/
theorem exists_ofResults_eq_ok (d : Direction) (h : results ≠ []) :
    ∃ t : Trial ℚ, Trial.ofResults d results = .ok t ∧ t.results = results ∧
      t.bestKnown ∈ results.map (·.energy) := by
  have hne : results.map (·.energy) ≠ [] := by simpa using h
  obtain ⟨best, hmem, hbest, -⟩ := d.best?_rat hne
  exact ⟨⟨best, results⟩, by rw [Trial.ofResults, hbest], rfl, hmem⟩

end

section
variable [Transcendental ℚ] {p : ProblemSection} {r : Round ℚ}

/-- The conditions under which a solver of a blueprint cannot fail on a problem. -/
def Admits (p : Problem ℚ) (b : Blueprint ℚ) : Prop :=
  (b.strategy = .bruteForce → p.IsPackable) ∧ b.schedule.validate = .ok ()

theorem exists_solveRound_eq_ok (hexact : r.problem.IsExact)
    (hgraph : r.problem.graph = p.graph) {b : Blueprint ℚ} (hb : Admits r.problem b) :
    ∃ outcome, (solveRound p r b).1 = .ok outcome ∧ r.problem.IsAttained outcome.bestEnergy ∧
      (b.strategy = .bruteForce → r.problem.IsNearOptimal p.direction outcome.bestEnergy) := by
  unfold solveRound
  rw [← hgraph]
  cases hstrategy : b.strategy with
  | bruteForce =>
    obtain ⟨solver, event, outcome, hcreate, hsolve, hattained, hnear⟩ := Solver.exists_search
      (.ofSeed r.solverSeed) hexact (hb.1 hstrategy) p.direction r.solverSeed b.schedule
    rw [hcreate]
    exact ⟨outcome, hsolve, hattained, fun _ => hnear⟩
  | anneal =>
    obtain ⟨solver, event, outcome, hcreate, hsolve, hattained⟩ := Solver.exists_anneal
      (.ofSeed r.solverSeed) hexact p.direction r.solverSeed hb.2
    rw [hcreate]
    exact ⟨outcome, hsolve, hattained, fun h => absurd h (by decide)⟩

/-- The attempts of a round, where solving takes the times that `elapsedMs` tells. -/
def attempts (p : ProblemSection) (r : Round ℚ) (elapsedMs : Blueprint ℚ → ℚ)
    (bs : List (Blueprint ℚ)) : List (Attempt ℚ) :=
  Id.run (attemptAll (fun b => pure ⟨b, (solveRound p r b).1, (solveRound p r b).2, elapsedMs b⟩) bs)

/-- A round in which no solver can fail makes a trial with one result for each blueprint. -/
theorem exists_trial_eq_ok (hexact : r.problem.IsExact) (hgraph : r.problem.graph = p.graph)
    {bs : List (Blueprint ℚ)} (hne : bs ≠ []) (hbs : ∀ b ∈ bs, Admits r.problem b)
    (elapsedMs : Blueprint ℚ → ℚ) :
    ∃ t : Trial ℚ, Round.trial p.direction (attempts p r elapsedMs bs) = .ok t ∧
      List.Forall₂ (Reaches r.problem p.direction) bs t.results ∧
      r.problem.IsAttained t.bestKnown := by
  have hattempt (b : Blueprint ℚ) (hb : b ∈ bs) :=
    exists_solveRound_eq_ok hexact hgraph (hbs b hb)
  have hsucceed : ∀ b ∈ bs, (solveRound p r b).1.toBool = true := by
    intro b hb
    obtain ⟨outcome, houtcome, -⟩ := hattempt b hb
    rw [houtcome]
    rfl
  have hattempts : attempts p r elapsedMs bs =
      bs.map fun b => ⟨b, (solveRound p r b).1, (solveRound p r b).2, elapsedMs b⟩ :=
    attemptAll_eq_map (f := fun b => ⟨b, (solveRound p r b).1, (solveRound p r b).2, elapsedMs b⟩)
      hsucceed
  have hresult : ∀ a ∈ attempts p r elapsedMs bs, ∃ result, a.result? = .ok result ∧
      Reaches r.problem p.direction a.blueprint result := by
    rw [hattempts]
    intro a ha
    obtain ⟨b, hb, rfl⟩ := List.mem_map.mp ha
    obtain ⟨outcome, houtcome, hattained, hnear⟩ := hattempt b hb
    exact ⟨_, Result.bind_eq_ok_iff.mpr ⟨outcome, houtcome, rfl⟩, rfl, rfl, hattained, hnear⟩
  obtain ⟨results, hresults, hreach⟩ := Result.exists_mapM_eq_ok hresult
  rw [hattempts, List.forall₂_map_left_iff] at hreach
  have hnonempty : results ≠ [] := by
    rintro rfl
    exact hne (List.forall₂_nil_right_iff.mp hreach)
  obtain ⟨t, ht, htrial, hbest⟩ := exists_ofResults_eq_ok p.direction hnonempty
  refine ⟨t, Result.bind_eq_ok_iff.mpr ⟨results, hresults, ht⟩, ?_, ?_⟩
  · exact htrial ▸ hreach
  · obtain ⟨result, hmem, henergy⟩ := List.mem_map.mp hbest
    obtain ⟨b, -, hb⟩ := Result.exists_mem_of_forall₂ hreach result hmem
    exact henergy ▸ hb.attained

end

section
variable {p : Problem ℚ} {d : Direction} {bs : List (Blueprint ℚ)}

/-- Results stand in the order of the blueprints. -/
theorem map_solver_eq {results : List (SolverResult ℚ)}
    (h : List.Forall₂ (Reaches p d) bs results) :
    results.map (fun x => (x.solver, x.strategy)) = bs.map (fun b => (b.name, b.strategy)) :=
  (Result.map_eq_of_forall₂ h fun _ _ hb => Prod.ext hb.solver_eq.symm hb.strategy_eq.symm).symm

/-- Against a best known energy that some assignment has, exhaustive search has no gap beyond the
tolerance. -/
theorem gap_le_of_reaches {t : Trial ℚ} (h : List.Forall₂ (Reaches p d) bs t.results)
    (ht : p.IsAttained t.bestKnown) {result : SolverResult ℚ} (hresult : result ∈ t.results)
    (hsearch : result.strategy = .bruteForce) : t.gap d result.energy ≤ Scalar.tolerance := by
  obtain ⟨b, -, hb⟩ := Result.exists_mem_of_forall₂ h result hresult
  rw [gap_rat]
  exact max_le Scalar.tolerance_pos.le
    (hb.nearOptimal (hb.strategy_eq.symm.trans hsearch) _ ht)

end

theorem isHit_rat {gap : ℚ} : isHit gap = true ↔ gap ≤ Scalar.tolerance := decide_eq_true_iff

theorem hits_credit (a : Account ℚ) (result : SolverResult ℚ) {gap : ℚ}
    (h : gap ≤ Scalar.tolerance) : (a.credit result gap).hits = a.hits + 1 :=
  if_pos (isHit_rat.mpr h)

end Qubo.Benchmark

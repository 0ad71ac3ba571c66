import Mathlib.Tactic
import Qubo.Proofs.Benchmark.Rounds
import Qubo.Proofs.Benchmark.Written
import Qubo.Proofs.Float.Finite

/-! Benchmarks of different sizes: a run with more instances, more trials or other solvers writes
the rows again that a smaller one has written, but for the time they took. -/
namespace Qubo.Benchmark
variable {α : Type} [Scalar α]

def Row.timeless (row : Row α) : Row α :=
  { row with result := { row.result with elapsedMs := Scalar.zero } }

/-- What a solver has found in a round, and what it has started from. -/
structure Finding (α : Type) where
  instanceIndex : Nat
  trialIndex : Nat
  instanceSeed : UInt64
  solverSeed : UInt64
  energy : α
  assignment : Assignment
  candidates : Nat
  steps : Nat

omit [Scalar α] in
def Row.finding (row : Row α) : Finding α where
  instanceIndex := row.instanceIndex
  trialIndex := row.trialIndex
  instanceSeed := row.instanceSeed
  solverSeed := row.solverSeed
  energy := row.result.energy
  assignment := row.result.assignment
  candidates := row.result.candidates
  steps := row.result.steps

variable [Transcendental α]

section Rows
variable {c c' : Config} {bs : List (Blueprint α)} {rs rs' : List (Round α)}
  {rows rows' : List (Row α)}

theorem Written.exists_of_append (h : Written c bs (rs ++ rs') rows) :
    ∃ before after, rows = before ++ after ∧ Written c bs rs before := by
  induction rs generalizing rows with
  | nil => exact ⟨[], rows, rfl, .nil⟩
  | cons r rs ih =>
    cases h with
    | cons ht h =>
      obtain ⟨before, after, rfl, hbefore⟩ := ih h
      exact ⟨_, after, (List.append_assoc _ _ _).symm, .cons ht hbefore⟩

/-- Rounds chosen by their trials have the rows that are chosen so. -/
theorem Written.filter (h : Written c bs rs rows) (chosen : ℕ → Bool) :
    Written c bs (rs.filter fun r => chosen r.trialIndex)
      (rows.filter fun row => chosen row.trialIndex) := by
  induction h with
  | nil => exact .nil
  | @cons r rs t rows ht _ ih =>
    have hrow (row : Row α) (hrow : row ∈ t.results.map (Progress.row c r t)) :
        row.trialIndex = r.trialIndex := by
      obtain ⟨x, -, rfl⟩ := List.mem_map.mp hrow
      rfl
    rw [List.filter_append, List.filter_cons]
    -- The rows of a trial bear its number: all of them are chosen or none is.
    by_cases hr : chosen r.trialIndex = true
    · have hall := List.filter_eq_self.mpr fun row hmem =>
        (congrArg chosen (hrow row hmem)).trans hr
      rw [if_pos hr, hall]
      exact .cons ht ih
    · have hnone := List.filter_eq_nil_iff.mpr fun row hmem =>
        (congrArg chosen (hrow row hmem)).trans_ne hr
      rw [if_neg hr, hnone]
      exact ih

/-- What a run depends on of its configuration, but for the rounds and the solvers. -/
structure Config.Alike (c c' : Config) : Prop where
  runId : c'.runId = c.runId
  graph : c'.problem.graph = c.problem.graph
  direction : c'.problem.direction = c.problem.direction

theorem solveRound_congr (hc : c.Alike c') (r : Round α) (b : Blueprint α) :
    solveRound c'.problem r b = solveRound c.problem r b := by
  unfold solveRound
  rw [hc.graph, hc.direction]

/-- Trials of one round have the same rows, but for the time they took. -/
theorem IsTrial.map_timeless (hc : c.Alike c') {r : Round α} {t t' : Trial α}
    (h : IsTrial c bs r t) (h' : IsTrial c' bs r t') :
    (t.results.map (Progress.row c r t)).map Row.timeless =
      (t'.results.map (Progress.row c' r t')).map Row.timeless := by
  have hyields {b : Blueprint α} {x x' : SolverResult α} (hx : Yields c.problem r b x)
      (hx' : Yields c'.problem r b x') :
      ∃ outcome ms ms', x = b.result outcome ms ∧ x' = b.result outcome ms' := by
    obtain ⟨outcome, ms, hsolve, rfl⟩ := hx
    obtain ⟨outcome', ms', hsolve', rfl⟩ := hx'
    rw [solveRound_congr hc, hsolve] at hsolve'
    obtain rfl := Except.ok.inj hsolve'
    exact ⟨outcome, ms, ms', rfl, rfl⟩
  have henergies : t.results.map (·.energy) = t'.results.map (·.energy) := by
    apply Result.map_eq_of_forall₂_of_forall₂ h.results h'.results
    intro b x x' hx hx'
    obtain ⟨outcome, ms, ms', rfl, rfl⟩ := hyields hx hx'
    rfl
  have hbest : t.bestKnown = t'.bestKnown := by
    have hbest := h.best
    rw [henergies, ← hc.direction, h'.best] at hbest
    exact (Option.some.inj hbest).symm
  rw [List.map_map, List.map_map]
  apply Result.map_eq_of_forall₂_of_forall₂ h.results h'.results
  intro b x x' hx hx'
  obtain ⟨outcome, ms, ms', rfl, rfl⟩ := hyields hx hx'
  simp only [Function.comp_apply, Row.timeless, Progress.row, Trial.gap, Blueprint.result, hbest,
    hc.runId, hc.graph, hc.direction]

theorem Written.map_timeless (hc : c.Alike c') (h : Written c bs rs rows)
    (h' : Written c' bs rs rows') : rows.map Row.timeless = rows'.map Row.timeless := by
  induction h generalizing rows' with
  | nil =>
    cases h'
    rfl
  | cons ht _ ih =>
    cases h' with
    | cons ht' h' => rw [List.map_append, List.map_append, ht.map_timeless hc ht', ih h']

theorem IsTrial.exists_rowsOf (hnodup : (bs.map (·.name)).Nodup) {b : Blueprint α} (hb : b ∈ bs)
    {r : Round α} {t : Trial α} (h : IsTrial c bs r t) :
    ∃ x, Yields c.problem r b x ∧
      rowsOf b.name (t.results.map (Progress.row c r t)) = [Progress.row c r t x] := by
  obtain ⟨x, hx, hfilter⟩ := exists_filter_solver h.results hnodup hb
  refine ⟨x, hx, ?_⟩
  rw [rowsOf_map_row, hfilter]
  rfl

def Finds (p : ProblemSection) (b : Blueprint α) (r : Round α) (row : Row α) : Prop :=
  ∃ outcome, (solveRound p r b).1 = .ok outcome ∧ row.finding = {
    instanceIndex := r.instanceIndex
    trialIndex := r.trialIndex
    instanceSeed := r.instanceSeed
    solverSeed := r.solverSeed
    energy := outcome.bestEnergy
    assignment := outcome.best
    candidates := outcome.energies.length
    steps := outcome.steps }

theorem Written.forall₂_finds (h : Written c bs rs rows) (hnodup : (bs.map (·.name)).Nodup)
    {b : Blueprint α} (hb : b ∈ bs) :
    List.Forall₂ (Finds c.problem b) rs (rowsOf b.name rows) := by
  induction h with
  | nil => exact .nil
  | cons ht _ ih =>
    obtain ⟨x, ⟨outcome, ms, hsolve, rfl⟩, hrow⟩ := ht.exists_rowsOf hnodup hb
    rw [rowsOf_append, hrow]
    exact .cons ⟨outcome, hsolve, rfl⟩ ih

theorem Finds.finding_eq {p : ProblemSection} {b : Blueprint α} {r : Round α} {row row' : Row α}
    (h : Finds p b r row) (h' : Finds p b r row') : row.finding = row'.finding := by
  obtain ⟨outcome, hsolve, hfinding⟩ := h
  obtain ⟨outcome', hsolve', hfinding'⟩ := h'
  obtain rfl := Except.ok.inj (hsolve.symm.trans hsolve')
  exact hfinding.trans hfinding'.symm

end Rows

def Config.withInstances (c : Config) (n : ℕ) : Config :=
  { c with problem := { c.problem with instances := n } }

def Config.withTrials (c : Config) (n : ℕ) : Config :=
  { c with problem := { c.problem with trials := n } }

/-- Growing a benchmark keeps the rows it had, whatever the time they take, in floats as in exact
numbers. With more instances they are the first rows; with more trials they are the rows of the
first trials, in their order; and with other solvers beside it, or in another order, a solver finds
the same in each round, from the same seeds. A configuration that is not ready has no rows that
could be compared: its exhaustive solvers fail in each round. -/
theorem growth_keeps_rows [LawfulEnergies α] {c : Config}
    {bs : List (Blueprint α)} (hc : c.Equipped bs) {start : Progress α}
    (hstart : Progress.new c = .ok start) (elapsedMs elapsedMs' : Round α → Blueprint α → α) :
    (∀ (n : ℕ) (start' : Progress α), c.problem.instances ≤ n →
      (c.withInstances n).Equipped bs → Progress.new (c.withInstances n) = .ok start' →
      (run c bs elapsedMs start).1.rows.toList.map Row.timeless <+:
        (run (c.withInstances n) bs elapsedMs' start').1.rows.toList.map Row.timeless) ∧
    (∀ (n : ℕ) (start' : Progress α), c.problem.trials ≤ n →
      (c.withTrials n).Equipped bs → Progress.new (c.withTrials n) = .ok start' →
      (run c bs elapsedMs start).1.rows.toList.map Row.timeless =
        ((run (c.withTrials n) bs elapsedMs' start').1.rows.toList.filter fun row =>
          row.trialIndex < c.problem.trials).map Row.timeless) ∧
    ∀ (c' : Config) (bs' : List (Blueprint α)) (start' : Progress α), c'.problem = c.problem →
      c'.Equipped bs' → Progress.new c' = .ok start' → ∀ b ∈ bs, b ∈ bs' →
      (rowsOf b.name (run c bs elapsedMs start).1.rows.toList).map Row.finding =
        (rowsOf b.name (run c' bs' elapsedMs' start').1.rows.toList).map Row.finding ∨
      (¬ c.Ready bs ∧ (run c bs elapsedMs start).1.rows = #[]) ∨
      (¬ c'.Ready bs' ∧ (run c' bs' elapsedMs' start').1.rows = #[]) := by
  refine ⟨?_, ?_, ?_⟩
  · intro n start' hn hc' hstart'
    by_cases hready : c.Ready bs
    · obtain ⟨-, -, hwritten⟩ := hready.run_spec elapsedMs hstart
      have hready' : (c.withInstances n).Ready bs := ⟨hc', hready.counted⟩
      obtain ⟨-, -, hwritten'⟩ := hready'.run_spec elapsedMs' hstart'
      obtain ⟨rest, hrounds⟩ := rounds_prefix (α := α) c.problem hn
      rw [show rounds (c.withInstances n).problem = rounds c.problem ++ rest from hrounds]
        at hwritten'
      obtain ⟨before, after, hrows, hbefore⟩ := hwritten'.exists_of_append
      have halike : c.Alike (c.withInstances n) := ⟨rfl, rfl, rfl⟩
      rw [hrows, List.map_append, hwritten.map_timeless halike hbefore]
      exact List.prefix_append _ _
    · rw [hc.rows_run_eq_empty hready elapsedMs hstart]
      exact List.nil_prefix
  · intro n start' hn hc' hstart'
    by_cases hready : c.Ready bs
    · obtain ⟨-, -, hwritten⟩ := hready.run_spec elapsedMs hstart
      have hready' : (c.withTrials n).Ready bs := ⟨hc', hready.counted⟩
      obtain ⟨-, -, hwritten'⟩ := hready'.run_spec elapsedMs' hstart'
      have hfirst := hwritten'.filter fun j => j < c.problem.trials
      rw [show (rounds (c.withTrials n).problem).filter _ = rounds c.problem from
        filter_rounds (α := α) c.problem hn] at hfirst
      have halike : c.Alike (c.withTrials n) := ⟨rfl, rfl, rfl⟩
      exact hwritten.map_timeless halike hfirst
    · have hready' : ¬ (c.withTrials n).Ready bs := fun h => hready ⟨hc, h.counted⟩
      rw [hc.rows_run_eq_empty hready elapsedMs hstart,
        hc'.rows_run_eq_empty hready' elapsedMs' hstart']
      rfl
  · intro c' bs' start' hproblem hc' hstart' b hb hb'
    by_cases hready : c.Ready bs
    · by_cases hready' : c'.Ready bs'
      · left
        obtain ⟨-, -, hwritten⟩ := hready.run_spec elapsedMs hstart
        obtain ⟨-, -, hwritten'⟩ := hready'.run_spec elapsedMs' hstart'
        have hfinds := hwritten.forall₂_finds hc.nodup hb
        have hfinds' := hwritten'.forall₂_finds hc'.nodup hb'
        rw [hproblem] at hfinds'
        exact Result.map_eq_of_forall₂_of_forall₂ hfinds hfinds' fun _ _ _ => Finds.finding_eq
      · exact .inr (.inr ⟨hready', hc'.rows_run_eq_empty hready' elapsedMs' hstart'⟩)
    · exact .inr (.inl ⟨hready, hc.rows_run_eq_empty hready elapsedMs hstart⟩)

/-- An exhaustive solver and an annealer on three variables in floats: one instance against three,
two trials against five, and the solvers in either order. -/
theorem growth_keeps_rows_of_rivals :
    let c : Config := ⟨"rivals", ⟨.dense, 3, 0, some 7, 1, 2, .maximize⟩,
      [⟨"exhaustive", .bruteForce, .null⟩, ⟨"annealed", .anneal, .null⟩],
      ⟨"rows", "summary", "plots"⟩, ⟨some "exhaustive", 1⟩, .standard⟩
    let c' : Config := { c with solvers := c.solvers.reverse }
    let bs : List (Blueprint Float) :=
      [⟨"exhaustive", .bruteForce, .standard⟩, ⟨"annealed", .anneal, .standard⟩]
    ∃ start start' : Progress Float, Progress.new c = .ok start ∧ Progress.new c' = .ok start' ∧
      (run c bs (fun _ _ => 1) start).1.rows.toList.map Row.timeless <+:
        (run (c.withInstances 3) bs (fun _ _ => 2) start).1.rows.toList.map Row.timeless ∧
      (run c bs (fun _ _ => 1) start).1.rows.toList.map Row.timeless =
        ((run (c.withTrials 5) bs (fun _ _ => 2) start).1.rows.toList.filter fun row =>
          row.trialIndex < 2).map Row.timeless ∧
      ∀ b ∈ bs, (rowsOf b.name (run c bs (fun _ _ => 1) start).1.rows.toList).map Row.finding =
        (rowsOf b.name (run c' bs.reverse (fun _ _ => 2) start').1.rows.toList).map Row.finding := by
  intro c c' bs
  have hbs : ∀ b ∈ bs, b.schedule.validate = .ok () := by simp [bs, Schedule.validate_standard]
  have hc : c.Equipped bs := ⟨by decide +kernel, rfl, hbs⟩
  have hinstances : (c.withInstances 3).Equipped bs := ⟨by decide +kernel, rfl, hbs⟩
  have htrials : (c.withTrials 5).Equipped bs := ⟨by decide +kernel, rfl, hbs⟩
  have hc' : c'.Equipped bs.reverse :=
    ⟨by decide +kernel, rfl, fun b hb => hbs b (List.mem_reverse.mp hb)⟩
  have hready : c.Ready bs := ⟨hc, fun _ => by decide⟩
  have hready' : c'.Ready bs.reverse := ⟨hc', fun _ => by decide⟩
  obtain ⟨start, hstart⟩ : ∃ start : Progress Float, Progress.new c = .ok start := ⟨_, rfl⟩
  obtain ⟨start', hstart'⟩ : ∃ start : Progress Float, Progress.new c' = .ok start := ⟨_, rfl⟩
  obtain ⟨hbegins, hfilter, hfindings⟩ :=
    growth_keeps_rows hc hstart (fun _ _ => 1) (fun _ _ => 2)
  refine ⟨start, start', hstart, hstart', hbegins 3 start (by decide) hinstances hstart,
    hfilter 5 start (by decide) htrials hstart, fun b hb => ?_⟩
  rcases hfindings c' bs.reverse start' rfl hc' hstart' b hb (List.mem_reverse.mpr hb) with
    heq | ⟨hnot, -⟩ | ⟨hnot, -⟩
  · exact heq
  · exact absurd hready hnot
  · exact absurd hready' hnot

end Qubo.Benchmark

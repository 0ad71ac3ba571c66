import Mathlib.Tactic
import Qubo.Benchmark.Analytics.Summary
import Qubo.Proofs.Benchmark.Accounts
import Qubo.Proofs.Benchmark.Round
import Qubo.Proofs.Outcome
import Qubo.Proofs.Statistics.Mean

/-! The gaps of a summary against its deltas. If every solver has one result in each trial, a mean
gap is a distance of means: from the mean of the best energies to that of the solver's. -/
namespace Qubo.Benchmark
open Statistics

/-- A trial with one result of each configured solver, measured from the best of them. -/
structure Trial.IsFull (c : Config) (t : Trial ℚ) : Prop where
  solvers : (t.results.map (·.solver)).Perm (c.solvers.map (·.name))
  best : c.problem.direction.best? (t.results.map (·.energy)) = some t.bestKnown

section Trials
variable {c : Config} {t : Trial ℚ}

/-- No energy is better than the best, so that a gap has nothing to be clamped. -/
theorem Trial.IsFull.sign_nonneg (h : t.IsFull c) {x : SolverResult ℚ} (hx : x ∈ t.results) :
    0 ≤ c.problem.direction.sign (x.energy - t.bestKnown) := by
  have hmem : x.energy ∈ t.results.map (·.energy) := List.mem_map_of_mem hx
  obtain ⟨best, -, hbest, hle⟩ := c.problem.direction.best?_rat (List.ne_nil_of_mem hmem)
  rw [h.best] at hbest
  rw [Direction.sign_sub, Option.some.inj hbest]
  exact sub_nonneg.mpr (hle x.energy hmem)

theorem Trial.IsFull.gap_eq (h : t.IsFull c) {x : SolverResult ℚ} (hx : x ∈ t.results) :
    t.gap c.problem.direction x.energy = c.problem.direction.sign (x.energy - t.bestKnown) := by
  rw [gap_rat, max_eq_right (h.sign_nonneg hx)]

theorem Trial.IsFull.exists_scores (h : t.IsFull c) (hnodup : (c.solvers.map (·.name)).Nodup)
    {name : String} (hname : name ∈ c.solvers.map (·.name)) :
    ∃ x, t.scores c.problem.direction name t.results =
      [(x, c.problem.direction.sign (x.energy - t.bestKnown))] := by
  have hone : (t.results.filter fun x => x.solver = name).length = 1 := by
    rw [← List.countP_eq_length_filter, ← List.count_eq_one_of_mem hnodup hname,
      ← h.solvers.count_eq, List.count, List.countP_map]
    congr 1
  obtain ⟨x, hx⟩ := List.length_eq_one_iff.mp hone
  have hmem : x ∈ t.results := List.mem_of_mem_filter (hx ▸ List.mem_singleton_self x)
  exact ⟨x, by rw [Trial.scores, hx, List.map_singleton, h.gap_eq hmem]⟩

/-- Full trials add up to one score each, and to a total gap that is a distance of totals. -/
theorem scores_of_full (hnodup : (c.solvers.map (·.name)).Nodup) {name : String}
    (hname : name ∈ c.solvers.map (·.name)) {trials : List (Trial ℚ)}
    (h : ∀ t ∈ trials, t.IsFull c) :
    let scores := trials.flatMap fun t => t.scores c.problem.direction name t.results
    scores.length = trials.length ∧ (scores.map (·.2)).sum = c.problem.direction.sign
      ((scores.map (·.1.energy)).sum - (trials.map (·.bestKnown)).sum) := by
  induction trials with
  | nil => cases hd : c.problem.direction <;> simp [Direction.sign]
  | cons t trials ih =>
    obtain ⟨ht, htrials⟩ := List.forall_mem_cons.mp h
    obtain ⟨hlength, hsum⟩ := ih htrials
    obtain ⟨x, hx⟩ := ht.exists_scores hnodup hname
    simp only [List.flatMap_cons, hx, List.singleton_append, List.length_cons, List.map_cons,
      List.sum_cons, hlength, hsum, true_and]
    rw [← Direction.sign_add, sub_add_sub_comm]

end Trials

section Reports
variable [Transcendental ℚ] {c : Config} {trials : List (Trial ℚ)}

/-- The mean gap is how much worse the mean energy is than the mean of the best ones. -/
theorem Account.meanGap_report (hnodup : (c.solvers.map (·.name)).Nodup) {s : SolverSection}
    (hs : s ∈ c.solvers) (h : ∀ t ∈ trials, t.IsFull c) (budgetMs : ℕ) (baselineMean : ℚ) :
    let a := (new s).creditAll
      (trials.flatMap fun t => t.scores c.problem.direction s.name t.results)
    (a.report c.problem.direction budgetMs baselineMean).meanGap =
      c.problem.direction.sign (a.meanEnergy - mean (trials.map (·.bestKnown))) := by
  obtain ⟨hlength, hsum⟩ := scores_of_full hnodup (List.mem_map_of_mem hs) h
  generalize trials.flatMap _ = scores at hlength hsum
  have henergies : ((new s).creditAll scores).energies.toList = scores.map (·.1.energy) := by
    simp [creditAll_eq, new]
  have htotal : ((new s).creditAll scores).totalGap = (scores.map (·.2)).sum := by
    simp [creditAll_eq, new, List.sum_eq_foldl]
  intro a
  simp only [a, report, meanEnergy]
  rw [share_rat, mean_rat, mean_rat, size_energies_creditAll, htotal, henergies, hsum,
    List.length_map, List.length_map, hlength, ← sub_div, Direction.sign_div]
  simp [new]

end Reports

namespace Collector

theorem exists_baselineMean_eq {α : Type} [Scalar α] {k : Collector α}
    (h : k.baseline ∈ k.accounts.map (·.solver)) :
    ∃ base ∈ k.accounts, base.solver = k.baseline ∧ k.baselineMean = base.meanEnergy := by
  obtain ⟨base, hbase⟩ : ∃ base, k.accounts.find? (·.solver == k.baseline) = some base := by
    apply Option.isSome_iff_exists.mp
    rw [List.find?_isSome]
    simpa [← List.mem_map] using h
  refine ⟨base, List.mem_of_find?_eq_some hbase, by simpa using List.find?_some hbase, ?_⟩
  rw [baselineMean, hbase]
  rfl

/-- Full trials are all recorded, and each account is a fresh one with its solver's scores. -/
theorem exists_recordAll_of_full {c : Config} {baseline : String}
    (hbaseline : c.metrics.baseline = some baseline) (hnodup : (c.solvers.map (·.name)).Nodup)
    (hmem : baseline ∈ c.solvers.map (·.name)) {entries : List (String × Trial ℚ)}
    (hentries : ∀ entry ∈ entries, entry.2.IsFull c) :
    ∃ k after, new c = .ok k ∧ k.recordAll entries = .ok after ∧ after.baseline = baseline ∧
      after.direction = c.problem.direction ∧
      after.accounts = c.solvers.map fun s => (Account.new s).creditAll
        ((entries.map (·.2)).flatMap fun t => t.scores c.problem.direction s.name t.results) := by
  obtain ⟨k, hk⟩ : ∃ k : Collector ℚ, new c = .ok k := ⟨_, by rw [new, hbaseline]⟩
  have hcollected := collected_new hnodup hk
  obtain rfl : baseline = k.baseline := Option.some.inj (hbaseline.symm.trans hcollected.baseline)
  have haccounts : k.accounts = c.solvers.map Account.new := hcollected.accounts
  have hsolvers : k.accounts.map (·.solver) = c.solvers.map (·.name) := by
    rw [haccounts, List.map_map]
    rfl
  have hadmits : ∀ entry ∈ entries, k.Admits entry.2 := by
    intro entry hentry
    have hresults := (hentries entry hentry).solvers
    refine ⟨List.mem_map.mp (hresults.mem_iff.mpr hmem), fun x hx => ?_⟩
    rw [hsolvers, ← hresults.mem_iff]
    exact List.mem_map_of_mem hx
  obtain ⟨after, hafter⟩ := (exists_recordAll_iff (nodup_new hk) entries).mpr hadmits
  have hholds := holds_of_recordAll (nodup_new hk) hafter
  refine ⟨k, after, hk, hafter, hholds.baseline, hholds.direction.trans hcollected.direction, ?_⟩
  rw [hholds.accounts, haccounts, List.map_map, hcollected.direction]
  rfl

end Collector

/-- In a summary of trials with one result of each solver, measured from the best of them, the
delta of a solver is its mean gap less the baseline's, so that the baseline's is zero. No gap is
clamped. -/
theorem delta_eq_meanGap_sub_meanGap [Transcendental ℚ] [NormalLaw ℚ] {c : Config}
    {baseline : String} (hbaseline : c.metrics.baseline = some baseline)
    (hnodup : (c.solvers.map (·.name)).Nodup) (hmem : baseline ∈ c.solvers.map (·.name))
    {entries : List (String × Trial ℚ)} (hentries : ∀ entry ∈ entries, entry.2.IsFull c) :
    ∃ k after, Collector.new c = .ok k ∧ k.recordAll entries = .ok after ∧
      after.summary.reports.map (·.solver) = c.solvers.map (·.name) ∧
      (∃ base ∈ after.summary.reports, base.solver = baseline ∧ base.delta = 0 ∧
        ∀ report ∈ after.summary.reports, report.delta = report.meanGap - base.meanGap) ∧
      ∀ entry ∈ entries, ∀ x ∈ entry.2.results,
        entry.2.gap c.problem.direction x.energy =
          c.problem.direction.sign (x.energy - entry.2.bestKnown) := by
  obtain ⟨k, after, hk, hafter, rfl, hdirection, haccounts⟩ :=
    Collector.exists_recordAll_of_full hbaseline hnodup hmem hentries
  have hsolvers : after.accounts.map (·.solver) = c.solvers.map (·.name) := by
    rw [haccounts, List.map_map]
    exact List.map_congr_left fun s _ => Account.solver_creditAll _ _
  have hfull : ∀ t ∈ entries.map (·.2), t.IsFull c := by
    simpa only [List.forall_mem_map] using hentries
  have hgap : ∀ a ∈ after.accounts,
      (a.report after.direction after.budgetMs after.baselineMean).meanGap =
        after.direction.sign (a.meanEnergy - mean ((entries.map (·.2)).map (·.bestKnown))) := by
    rw [haccounts, hdirection]
    intro a ha
    obtain ⟨s, hs, rfl⟩ := List.mem_map.mp ha
    exact Account.meanGap_report hnodup hs hfull _ _
  obtain ⟨base, hbase, hname, hmean⟩ := Collector.exists_baselineMean_eq (hsolvers ▸ hmem)
  refine ⟨k, after, hk, hafter, ?_, ⟨_, List.mem_map_of_mem hbase, hname, ?_, ?_⟩, ?_⟩
  · rw [← hsolvers, Collector.summary, List.map_map]
    rfl
  · show after.direction.sign (base.meanEnergy - after.baselineMean) = 0
    rw [hmean, Direction.sign_sub, sub_self]
  · intro report hreport
    obtain ⟨a, ha, rfl⟩ := List.mem_map.mp hreport
    rw [hgap a ha, hgap base hbase, ← Direction.sign_sub, sub_sub_sub_cancel_right, ← hmean]
    rfl
  · intro entry hentry x hx
    exact (hentries entry hentry).gap_eq hx

/-- Two solvers that win a trial each, listed in different orders. -/
theorem delta_eq_meanGap_sub_meanGap_of_rivals :
    letI : Transcendental ℚ := ⟨id, id, id, id⟩
    letI : NormalLaw ℚ := ⟨id⟩
    let c : Config := ⟨"rivals", ⟨.dense, 3, 0, some 7, 1, 2, .maximize⟩,
      [⟨"exhaustive", .bruteForce, .null⟩, ⟨"annealed", .anneal, .null⟩],
      ⟨"rows", "summary", "plots"⟩, ⟨some "exhaustive", 1⟩, .standard⟩
    let exhaustive (e : ℚ) : SolverResult ℚ :=
      ⟨"exhaustive", .bruteForce, e, .dense (.ofPacked 5 4), 1, 0, 2⟩
    let annealed (e : ℚ) : SolverResult ℚ :=
      ⟨"annealed", .anneal, e, .dense (.ofPacked 4 4), 1, 10, 2⟩
    ∃ k after, Collector.new c = .ok k ∧
      k.recordAll [("I00000_T00", ⟨3, [exhaustive 3, annealed 2]⟩),
        ("I00000_T01", ⟨5, [annealed 5, exhaustive 1]⟩)] = .ok after ∧
      ∃ base ∈ after.summary.reports, base.solver = "exhaustive" ∧ base.delta = 0 ∧
        ∀ report ∈ after.summary.reports, report.delta = report.meanGap - base.meanGap := by
  intro c exhaustive annealed
  have hfirst : (⟨3, [exhaustive 3, annealed 2]⟩ : Trial ℚ).IsFull c :=
    ⟨List.Perm.refl _, by decide +kernel⟩
  have hsecond : (⟨5, [annealed 5, exhaustive 1]⟩ : Trial ℚ).IsFull c :=
    ⟨List.Perm.swap _ _ _, by decide +kernel⟩
  obtain ⟨k, after, hk, hafter, -, hbase, -⟩ :=
    @delta_eq_meanGap_sub_meanGap ⟨id, id, id, id⟩ ⟨id⟩ c "exhaustive" rfl (by decide) (by decide)
      [("I00000_T00", ⟨3, [exhaustive 3, annealed 2]⟩),
        ("I00000_T01", ⟨5, [annealed 5, exhaustive 1]⟩)]
      (List.forall_mem_cons.mpr ⟨hfirst, List.forall_mem_singleton.mpr hsecond⟩)
  exact ⟨k, after, hk, hafter, hbase⟩

end Qubo.Benchmark

import Mathlib.Tactic
import Qubo.Proofs.Benchmark.Trials
import Qubo.Proofs.Negation
import Qubo.Proofs.Result
import Qubo.Proofs.Statistics.Mean
import Qubo.Proofs.Statistics.SignedRank

/-! Symmetries of a summary in exact numbers. Totals, counts and ranks do not look at the order of
the trials; gaps and differences are those of the negated energies in the opposite direction. -/
namespace Qubo.Benchmark
open Statistics

section Order

/-- Accounts that differ in the order of their energies only. -/
structure Account.Shuffles (a a' : Account ℚ) : Prop where
  frame : a' = { a with energies := a'.energies }
  energies : a'.energies.toList.Perm a.energies.toList

theorem Account.shuffles_creditAll {scores scores' : List (SolverResult ℚ × ℚ)}
    (h : scores'.Perm scores) (a : Account ℚ) :
    (a.creditAll scores).Shuffles (a.creditAll scores') := by
  rw [creditAll_eq, creditAll_eq]
  constructor
  · have hgap := (h.map (·.2)).foldl_eq (f := fun x y : ℚ => x + y) a.totalGap
    have hms := (h.map (·.1.elapsedMs)).foldl_eq (f := fun x y : ℚ => x + y) a.totalMs
    rw [hgap, hms, h.countP_eq, (h.map (·.1.steps)).sum_eq]
  · simpa using (h.map (·.1.energy)).append_left a.energies.toList

section
variable {a a' : Account ℚ}

theorem Account.Shuffles.solver_eq (h : a.Shuffles a') : a'.solver = a.solver := by rw [h.frame]

theorem Account.Shuffles.size_energies_eq (h : a.Shuffles a') :
    a'.energies.size = a.energies.size := by
  simpa using h.energies.length_eq

theorem Account.Shuffles.meanEnergy_eq (h : a.Shuffles a') : a'.meanEnergy = a.meanEnergy :=
  mean_perm h.energies

theorem Account.Shuffles.report_eq [Transcendental ℚ] (h : a.Shuffles a') (d : Direction)
    (budgetMs : ℕ) (baselineMean : ℚ) :
    a'.report d budgetMs baselineMean = a.report d budgetMs baselineMean := by
  have hsize := h.size_energies_eq
  have hmean := h.meanEnergy_eq
  have hconfidence := confidenceInterval_perm h.energies
  rw [h.frame] at hmean ⊢
  simp only [report, hsize, hmean, hconfidence]

theorem find?_meanEnergy_of_shuffles {accounts accounts' : List (Account ℚ)}
    (h : List.Forall₂ Account.Shuffles accounts accounts') (name : String) :
    (accounts'.find? (·.solver == name)).map Account.meanEnergy =
      (accounts.find? (·.solver == name)).map Account.meanEnergy := by
  induction h with
  | nil => rfl
  | cons ha _ ih =>
    rw [List.find?_cons, List.find?_cons, ha.solver_eq]
    split
    · exact congrArg some ha.meanEnergy_eq
    · exact ih

end

namespace Collector
variable {k after after' : Collector ℚ} {trials trials' : List (Trial ℚ)}

/-- After the same trials in another order, the same accounts hold their energies in another. -/
theorem Holds.forall₂_shuffles (h : k.Holds trials after) (h' : k.Holds trials' after')
    (hperm : trials'.Perm trials) :
    List.Forall₂ Account.Shuffles after.accounts after'.accounts := by
  rw [h.accounts, h'.accounts, List.forall₂_map_left_iff, List.forall₂_map_right_iff,
    List.forall₂_same]
  exact fun a _ => a.shuffles_creditAll (hperm.flatMap_right _)

theorem Holds.summary_eq_of_perm [Transcendental ℚ] [NormalLaw ℚ] (h : k.Holds trials after)
    (h' : k.Holds trials' after') (hperm : trials'.Perm trials) :
    after'.summary = after.summary := by
  have haccounts := h.forall₂_shuffles h' hperm
  have hbaseline : after'.baseline = after.baseline := by rw [h.baseline, h'.baseline]
  have hdirection : after'.direction = after.direction := by rw [h.direction, h'.direction]
  have hbudget : after'.budgetMs = after.budgetMs := by rw [h.frame, h'.frame]
  have hmean : after'.baselineMean = after.baselineMean := by
    rw [baselineMean, baselineMean, hbaseline, find?_meanEnergy_of_shuffles haccounts]
  have htest (name : String) (hname : name ≠ after.baseline) :
      SignedRank.test (after'.differencesOf name) = SignedRank.test (after.differencesOf name) := by
    rw [h.baseline] at hname
    apply SignedRank.test_perm
    rw [h.differences name hname, h'.differences name hname]
    exact (hperm.flatMap_right _).append_left _
  have hreports : after.summary.reports = after'.summary.reports := by
    refine Result.map_eq_of_forall₂ haccounts fun a a' ha => ?_
    rw [hdirection, hbudget, hmean, ha.report_eq]
  have hcomparisons : after.summary.comparisons = after'.summary.comparisons := by
    refine Result.map_eq_of_forall₂ haccounts fun a a' ha => ?_
    rw [comparison, comparison, ha.solver_eq, hbaseline, ha.size_energies_eq]
    split
    · rfl
    next hname => rw [htest a.solver hname]
  rw [summary, summary, Summary.mk.injEq]
  exact ⟨hbaseline, hdirection, hbudget, hreports.symm, hcomparisons.symm⟩

end Collector

end Order

section Negation

def SolverResult.negate (x : SolverResult ℚ) : SolverResult ℚ := { x with energy := -x.energy }

def Trial.negate (t : Trial ℚ) : Trial ℚ := ⟨-t.bestKnown, t.results.map SolverResult.negate⟩

def Account.negate (a : Account ℚ) : Account ℚ := { a with energies := a.energies.map (-·) }

theorem Trial.gap_negate (t : Trial ℚ) (d : Direction) (e : ℚ) :
    t.negate.gap d.opposite (-e) = t.gap d e := by
  rw [gap, gap, negate, Direction.sign_opposite_neg_sub_neg]

theorem Account.credit_negate (a : Account ℚ) (x : SolverResult ℚ) (gap : ℚ) :
    a.negate.credit x.negate gap = (a.credit x gap).negate := by
  simp [credit, negate, SolverResult.negate]

theorem Account.meanEnergy_negate (a : Account ℚ) : a.negate.meanEnergy = -a.meanEnergy := by
  rw [meanEnergy, negate, Array.toList_map, mean_neg]
  rfl

/-- A map of accounts that keeps their solvers, and under which two changes are the same. -/
theorem Account.update?_map {solver : String} {f change change' : Account ℚ → Account ℚ}
    (hf : ∀ a, (f a).solver = a.solver) (hchange : ∀ a, change' (f a) = f (change a))
    (accounts : List (Account ℚ)) :
    update? solver change' (accounts.map f) =
      (update? solver change accounts).map (List.map f) := by
  induction accounts with
  | nil => rfl
  | cons a rest ih =>
    rw [List.map_cons, update?, update?, hf]
    split
    · rw [hchange, Option.map_some, List.map_cons]
    · rw [ih, Option.map_map, Option.map_map]
      rfl

theorem Account.map_negate_insert (a : Account ℚ) (accounts : List (Account ℚ)) :
    (insert a accounts).map negate = insert a.negate (accounts.map negate) := by
  induction accounts with
  | nil => rfl
  | cons b rest ih =>
    rw [insert, List.map_cons, insert]
    by_cases hb : b.solver = a.solver
    · rw [if_pos hb]
      exact (if_pos hb).symm
    · rw [if_neg hb, List.map_cons, ih]
      exact (if_neg hb).symm

theorem Account.negate_new (s : SolverSection) : (new s).negate = new s := by
  simp [new, negate]

/-- The configuration with the opposite direction. -/
def Config.mirror (c : Config) : Config :=
  { c with problem := { c.problem with direction := c.problem.direction.opposite } }

namespace Collector

/-- The collector of the negated trials. Differences are the same on both sides. -/
def mirror (k : Collector ℚ) : Collector ℚ :=
  { k with direction := k.direction.opposite, accounts := k.accounts.map Account.negate }

theorem new_mirror (c : Config) : new c.mirror = (new c).map mirror := by
  have haccounts : c.solvers.foldl (fun accounts s => Account.insert (.new s) accounts) [] =
      (c.solvers.foldl (fun accounts s => Account.insert (.new s) accounts) []).map
        Account.negate := by
    show c.solvers.foldl _ (([] : List (Account ℚ)).map Account.negate) = _
    apply List.foldl_hom
    intro accounts s
    rw [Account.map_negate_insert, Account.negate_new]
  unfold new
  rw [show c.mirror.metrics = c.metrics from rfl]
  cases c.metrics.baseline with
  | none => rfl
  | some baseline => rw [Except.map, mirror, ← haccounts]; rfl

section
variable (k : Collector ℚ) (t : Trial ℚ)

theorem credit_mirror (results : List (SolverResult ℚ)) :
    k.mirror.credit t.negate (results.map SolverResult.negate) =
      (k.credit t results).map mirror id := by
  induction results generalizing k with
  | nil => rfl
  | cons x results ih =>
    -- The gap to be credited is the same, so the same account takes it or none does.
    have hupdate : Account.update? x.negate.solver
        (·.credit x.negate (t.negate.gap k.mirror.direction x.negate.energy)) k.mirror.accounts =
        (Account.update? x.solver (·.credit x (t.gap k.direction x.energy)) k.accounts).map
          (List.map Account.negate) := by
      rw [show t.negate.gap k.mirror.direction x.negate.energy = t.gap k.direction x.energy from
        t.gap_negate k.direction x.energy]
      exact Account.update?_map (f := Account.negate) (fun _ => rfl)
        (fun a => a.credit_negate x _) k.accounts
    rw [List.map_cons, credit, credit, hupdate]
    cases Account.update? x.solver (·.credit x (t.gap k.direction x.energy)) k.accounts with
    | none => rfl
    | some accounts => exact ih { k with accounts := accounts }

theorem compare_mirror (e : ℚ) (x : SolverResult ℚ) :
    compare (-e) k.mirror x.negate = (compare e k x).mirror := by
  have hsign : k.mirror.direction.sign (x.negate.energy - -e) =
      k.direction.sign (x.energy - e) :=
    k.direction.sign_opposite_neg_sub_neg x.energy e
  by_cases h : x.solver = k.baseline
  · rw [compare, compare, if_pos h, if_pos (show x.negate.solver = k.mirror.baseline from h)]
  · rw [compare, compare, if_neg h, if_neg (show x.negate.solver ≠ k.mirror.baseline from h), hsign]
    rfl

theorem record_mirror (name : String) :
    k.mirror.record name t.negate = (k.record name t).map mirror id := by
  have hfold (results : List (SolverResult ℚ)) (e : ℚ) (k : Collector ℚ) :
      (results.map SolverResult.negate).foldl (compare (-e)) k.mirror =
        (results.foldl (compare e) k).mirror := by
    rw [List.foldl_map]
    exact List.foldl_hom mirror fun k x => k.compare_mirror e x
  have hbase : t.negate.results.find? (·.solver == k.baseline) =
      (t.results.find? (·.solver == k.baseline)).map SolverResult.negate :=
    List.find?_map
  have hcredit := k.credit_mirror t t.results
  unfold record
  rw [show k.mirror.baseline = k.baseline from rfl, hbase]
  cases t.results.find? (·.solver == k.baseline) with
  | none => rfl
  | some base =>
    rw [show t.negate.results = t.results.map SolverResult.negate from rfl]
    simp only [Option.map_some, hcredit]
    generalize k.credit t t.results = credited
    obtain ⟨after, _ | _⟩ := credited
    · rfl
    · exact Prod.ext (hfold _ _ _) rfl

end

theorem recordAll_mirror (k : Collector ℚ) (entries : List (String × Trial ℚ)) :
    k.mirror.recordAll (entries.map (Prod.map id Trial.negate)) =
      (k.recordAll entries).map mirror := by
  induction entries generalizing k with
  | nil => rfl
  | cons entry rest ih =>
    obtain ⟨name, t⟩ := entry
    rw [List.map_cons, Prod.map_apply, recordAll, recordAll, id, record_mirror]
    generalize k.record name t = recorded
    obtain ⟨after, _ | _⟩ := recorded
    · rfl
    · exact ih after

theorem baselineMean_mirror (k : Collector ℚ) : k.mirror.baselineMean = -k.baselineMean := by
  have hfind : k.mirror.accounts.find? (·.solver == k.baseline) =
      (k.accounts.find? (·.solver == k.baseline)).map Account.negate :=
    List.find?_map
  rw [baselineMean, baselineMean, show k.mirror.baseline = k.baseline from rfl, hfind]
  cases k.accounts.find? (·.solver == k.baseline) with
  | none => simp
  | some a => exact a.meanEnergy_negate

end Collector

section Summaries
variable [Transcendental ℚ]

/-- The report of the negated energies: the mean is negated, and the interval around it lies on the
other side of zero. -/
def SolverReport.mirror (r : SolverReport ℚ) : SolverReport ℚ :=
  { r with meanEnergy := -r.meanEnergy, confidence := (-r.confidence.2, -r.confidence.1) }

/-- The summary of the negated energies in the opposite direction: all else is the same. -/
def Summary.mirror (s : Summary ℚ) : Summary ℚ :=
  { s with direction := s.direction.opposite, reports := s.reports.map SolverReport.mirror }

theorem Account.report_negate (a : Account ℚ) (d : Direction) (budgetMs : ℕ) (baselineMean : ℚ) :
    a.negate.report d.opposite budgetMs (-baselineMean) =
      (a.report d budgetMs baselineMean).mirror := by
  have hsize : a.negate.energies.size = a.energies.size := Array.size_map
  have hconfidence : confidenceInterval a.negate.energies.toList =
      (-(confidenceInterval a.energies.toList).2, -(confidenceInterval a.energies.toList).1) := by
    rw [negate, Array.toList_map, confidenceInterval_neg]
  rw [report, meanEnergy_negate, hsize, hconfidence, Direction.sign_opposite_neg_sub_neg]
  rfl

namespace Collector

theorem summary_mirror [NormalLaw ℚ] (k : Collector ℚ) :
    k.mirror.summary = k.summary.mirror := by
  have hreports : k.mirror.summary.reports = k.summary.reports.map SolverReport.mirror := by
    rw [summary, summary, List.map_map, baselineMean_mirror]
    refine List.map_map.trans (List.map_congr_left fun a _ => ?_)
    exact a.report_negate k.direction k.budgetMs k.baselineMean
  have hcomparisons : k.mirror.summary.comparisons = k.summary.comparisons := by
    refine List.map_map.trans (List.map_congr_left fun a _ => ?_)
    show k.mirror.comparison a.negate = k.comparison a
    rw [comparison, comparison, show a.negate.energies.size = a.energies.size from Array.size_map]
    rfl
  rw [summary, Summary.mk.injEq]
  exact ⟨rfl, rfl, rfl, hreports, hcomparisons⟩

end Collector

end Summaries

end Negation

/-- The summary of some trials is that of the same trials in any other order; and negated energies
in the opposite direction give the same summary, but for the direction, the negated mean energies
and their intervals on the other side of zero. -/
theorem shuffled_and_mirrored_trials_agree [Transcendental ℚ] [NormalLaw ℚ] {c : Config}
    {k after : Collector ℚ} {entries : List (String × Trial ℚ)} (hnew : Collector.new c = .ok k)
    (hrecord : k.recordAll entries = .ok after) :
    (∀ entries', entries'.Perm entries →
      ∃ after', k.recordAll entries' = .ok after' ∧ after'.summary = after.summary) ∧
    ∃ k' after', Collector.new c.mirror = .ok k' ∧
      k'.recordAll (entries.map (Prod.map id Trial.negate)) = .ok after' ∧
      after'.summary = after.summary.mirror := by
  constructor
  · have hnodup := Collector.nodup_new hnew
    intro entries' hperm
    have hadmits := (Collector.exists_recordAll_iff hnodup entries).mp ⟨after, hrecord⟩
    obtain ⟨after', hrecord'⟩ := (Collector.exists_recordAll_iff hnodup entries').mpr
      fun entry hentry => hadmits entry (hperm.mem_iff.mp hentry)
    exact ⟨after', hrecord', (Collector.holds_of_recordAll hnodup hrecord).summary_eq_of_perm
      (Collector.holds_of_recordAll hnodup hrecord') (hperm.map _)⟩
  · refine ⟨k.mirror, after.mirror, ?_, ?_, after.summary_mirror⟩
    · rw [Collector.new_mirror, hnew]
      rfl
    · rw [Collector.recordAll_mirror, hrecord]
      rfl

/-- Two solvers that win a trial each, the trials in either order, and both of them negated. -/
theorem shuffled_and_mirrored_trials_agree_of_rivals :
    letI : Transcendental ℚ := ⟨id, id, id, id⟩
    letI : NormalLaw ℚ := ⟨id⟩
    let c : Config := ⟨"rivals", ⟨.dense, 3, 0, some 7, 1, 2, .maximize⟩,
      [⟨"exhaustive", .bruteForce, .null⟩, ⟨"annealed", .anneal, .null⟩],
      ⟨"rows", "summary", "plots"⟩, ⟨some "exhaustive", 1⟩, .standard⟩
    let trial (best exhaustive annealed : ℚ) : Trial ℚ := ⟨best,
      [⟨"exhaustive", .bruteForce, exhaustive, .dense (.ofPacked 5 4), 1, 0, 2⟩,
        ⟨"annealed", .anneal, annealed, .dense (.ofPacked 4 4), 1, 10, 2⟩]⟩
    ∃ k after, Collector.new c = .ok k ∧
      k.recordAll [("I00000_T00", trial 3 3 2), ("I00000_T01", trial 5 1 5)] = .ok after ∧
      (∃ after', k.recordAll [("I00000_T01", trial 5 1 5), ("I00000_T00", trial 3 3 2)] =
        .ok after' ∧ after'.summary = after.summary) ∧
      ∃ k' after', Collector.new c.mirror = .ok k' ∧
        k'.recordAll [("I00000_T00", trial (-3) (-3) (-2)), ("I00000_T01", trial (-5) (-1) (-5))] =
          .ok after' ∧ after'.summary = after.summary.mirror := by
  intro c trial
  obtain ⟨k, after, hk, hafter⟩ : ∃ k after, Collector.new c = .ok k ∧
      k.recordAll [("I00000_T00", trial 3 3 2), ("I00000_T01", trial 5 1 5)] = .ok after :=
    ⟨_, _, rfl, rfl⟩
  obtain ⟨hshuffled, hmirrored⟩ :=
    @shuffled_and_mirrored_trials_agree ⟨id, id, id, id⟩ ⟨id⟩ c k after _ hk hafter
  exact ⟨k, after, hk, hafter, hshuffled _ (List.Perm.swap _ _ _), hmirrored⟩

end Qubo.Benchmark

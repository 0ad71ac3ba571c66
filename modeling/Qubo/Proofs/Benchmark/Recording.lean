import Mathlib.Tactic
import Mathlib.Data.List.TakeWhile
import Qubo.Benchmark.Analytics.Summary

/-! Recording a trial. The baseline's result is looked for before anything is counted, but results
are credited one after the other: those before one of an unknown solver stay. -/
namespace Qubo.Benchmark
variable {α : Type} [Scalar α]

/-- The results of one solver, each with its gap from the best of their trial. -/
def Trial.scores (t : Trial α) (d : Direction) (solver : String) (results : List (SolverResult α)) :
    List (SolverResult α × α) :=
  (results.filter fun x => x.solver = solver).map fun x => (x, t.gap d x.energy)

namespace Account

def creditAll (a : Account α) (scores : List (SolverResult α × α)) : Account α :=
  scores.foldl (fun a score => a.credit score.1 score.2) a

theorem creditAll_eq (scores : List (SolverResult α × α)) (a : Account α) :
    a.creditAll scores = { a with
      energies := a.energies ++ scores.map (·.1.energy)
      totalGap := (scores.map (·.2)).foldl (· + ·) a.totalGap
      hits := a.hits + .ofNat (scores.countP fun score => isHit score.2)
      totalMs := (scores.map (·.1.elapsedMs)).foldl (· + ·) a.totalMs
      totalSteps := a.totalSteps + .ofNat (scores.map (·.1.steps)).sum } := by
  unfold creditAll
  induction scores generalizing a with
  | nil => simp
  | cons score scores ih =>
    rw [List.foldl_cons, ih]
    by_cases hhit : isHit score.2 = true <;>
      simp [credit, hhit, UInt32.ofNat_add, UInt64.ofNat_add, UInt32.add_assoc, UInt64.add_assoc,
        UInt32.add_comm 1]

theorem creditAll_append (a : Account α) (scores scores' : List (SolverResult α × α)) :
    a.creditAll (scores ++ scores') = (a.creditAll scores).creditAll scores' :=
  List.foldl_append

@[simp] theorem solver_creditAll (a : Account α) (scores : List (SolverResult α × α)) :
    (a.creditAll scores).solver = a.solver := by
  rw [creditAll_eq]

theorem size_energies_creditAll (a : Account α) (scores : List (SolverResult α × α)) :
    (a.creditAll scores).energies.size = a.energies.size + scores.length := by
  rw [creditAll_eq, ← Array.length_toList]
  simp

section Updates
omit [Scalar α]
variable {solver : String} {change : Account α → Account α} {accounts accounts' : List (Account α)}

theorem update?_eq_none_iff :
    update? solver change accounts = none ↔ solver ∉ accounts.map (·.solver) := by
  induction accounts with
  | nil => simp [update?]
  | cons a rest ih =>
    rw [update?]
    by_cases ha : a.solver = solver
    · simp [ha]
    · rw [if_neg ha, Option.map_eq_none_iff, ih, List.map_cons, List.mem_cons, not_or]
      exact (and_iff_right (Ne.symm ha)).symm

theorem exists_update? (h : solver ∈ accounts.map (·.solver)) (change : Account α → Account α) :
    ∃ accounts', update? solver change accounts = some accounts' :=
  Option.ne_none_iff_exists'.mp fun hnone => update?_eq_none_iff.mp hnone h

/-- The first account of the solver is changed, and no other. -/
theorem exists_of_update? (h : update? solver change accounts = some accounts') :
    ∃ before a after, accounts = before ++ a :: after ∧ a.solver = solver ∧
      (∀ b ∈ before, b.solver ≠ solver) ∧ accounts' = before ++ change a :: after := by
  induction accounts generalizing accounts' with
  | nil => simp [update?] at h
  | cons a rest ih =>
    rw [update?] at h
    split at h
    next ha => exact ⟨[], a, rest, rfl, ha, by simp, (Option.some.inj h).symm⟩
    next ha =>
      obtain ⟨rest', hrest, rfl⟩ := Option.map_eq_some_iff.mp h
      obtain ⟨before, b, after, rfl, hb, hbefore, rfl⟩ := ih hrest
      exact ⟨a :: before, b, after, rfl, hb, List.forall_mem_cons.mpr ⟨ha, hbefore⟩, rfl⟩

theorem find?_update? (hchange : ∀ a, (change a).solver = a.solver)
    (h : update? solver change accounts = some accounts') (name : String) :
    accounts'.find? (·.solver == name) = (accounts.find? (·.solver == name)).map fun a =>
      if solver = name then change a else a := by
  obtain ⟨before, a, after, rfl, rfl, hbefore, rfl⟩ := exists_of_update? h
  rw [List.find?_append, List.find?_append]
  by_cases hname : a.solver = name
  · have hnone : before.find? (·.solver == name) = none := by
      simpa [List.find?_eq_none, ← hname] using hbefore
    simp [hnone, hname, hchange]
  · simp [hname, hchange]

theorem map_solver_update? (hchange : ∀ a, (change a).solver = a.solver)
    (h : update? solver change accounts = some accounts') :
    accounts'.map (·.solver) = accounts.map (·.solver) := by
  obtain ⟨before, a, after, rfl, -, -, rfl⟩ := exists_of_update? h
  simp [hchange]

/-- Accounts that are found by the same names, and one for each, are the same. -/
theorem eq_of_find? (hsolvers : accounts'.map (·.solver) = accounts.map (·.solver))
    (hnodup : (accounts.map (·.solver)).Nodup)
    (h : ∀ name, accounts'.find? (·.solver == name) = accounts.find? (·.solver == name)) :
    accounts' = accounts := by
  induction accounts generalizing accounts' with
  | nil => exact List.map_eq_nil_iff.mp hsolvers
  | cons a rest ih =>
    obtain ⟨a', rest', rfl, hsolver, hrest⟩ := List.map_eq_cons_iff.mp hsolvers
    rw [List.map_cons, List.nodup_cons] at hnodup
    obtain ⟨hfresh, hnodup⟩ := hnodup
    have hfirst : a' = a := by simpa [hsolver] using h a.solver
    subst hfirst
    congr 1
    refine ih hrest hnodup fun name => ?_
    by_cases hname : a'.solver = name
    · -- Neither rest has an account of the first name.
      have hnone {accounts : List (Account α)}
          (heq : accounts.map (·.solver) = rest.map (·.solver)) :
          accounts.find? (·.solver == name) = none := by
        rw [List.find?_eq_none]
        intro b hb hbname
        apply hfresh
        rw [← heq, hname, ← beq_iff_eq.mp hbname]
        exact List.mem_map_of_mem hb
      rw [hnone hrest, hnone rfl]
    · simpa [hname] using h name

end Updates

end Account

namespace Collector

/-- How many results have been credited to a solver. -/
def trialsOf (k : Collector α) (solver : String) : ℕ :=
  ((k.accounts.find? (·.solver == solver)).map (·.energies.size)).getD 0

/-- The results of a trial before the first one of a solver that is not configured. -/
def creditable (k : Collector α) (t : Trial α) : List (SolverResult α) :=
  t.results.takeWhile fun x => x.solver ∈ k.accounts.map (·.solver)

/-- What the accounts of a collector become when some results of a trial are credited. -/
structure Credited (k : Collector α) (t : Trial α) (results : List (SolverResult α))
    (accounts : List (Account α)) : Prop where
  credit : k.credit t results = ({ k with accounts := accounts }, .ok ())
  solvers : accounts.map (·.solver) = k.accounts.map (·.solver)
  account : ∀ name, accounts.find? (·.solver == name) =
    (k.accounts.find? (·.solver == name)).map fun a =>
      a.creditAll (t.scores k.direction name results)
  size : (accounts.map (·.energies.size)).sum =
    (k.accounts.map (·.energies.size)).sum + results.length

variable {k : Collector α} {t : Trial α} {results : List (SolverResult α)}
  {accounts : List (Account α)}

omit [Scalar α] in
theorem mem_solvers_of_mem_creditable {x : SolverResult α} (hx : x ∈ k.creditable t) :
    x.solver ∈ k.accounts.map (·.solver) := by
  unfold creditable at hx
  exact of_decide_eq_true (List.mem_takeWhile_imp
    (p := fun x : SolverResult α => decide (x.solver ∈ k.accounts.map (·.solver))) hx)

/-- A solver that is not configured stops the crediting before its result. -/
theorem credit_of_unknown {x : SolverResult α} (hx : x.solver ∉ k.accounts.map (·.solver))
    (t : Trial α) (rest : List (SolverResult α)) :
    k.credit t (x :: rest) = (k, .error (.unknownSolver x.solver)) := by
  rw [credit, Account.update?_eq_none_iff.mpr hx]

theorem credit_append {k' : Collector α} (h : k.credit t results = (k', .ok ()))
    (rest : List (SolverResult α)) : k.credit t (results ++ rest) = k'.credit t rest := by
  induction results generalizing k with
  | nil => rw [List.nil_append, ← (Prod.mk.inj h).1]
  | cons x results ih =>
    rw [credit] at h
    rw [List.cons_append, credit]
    split at h
    · cases h
    · exact ih h

/-- Results of configured solvers are all credited. -/
theorem exists_credited (h : ∀ x ∈ results, x.solver ∈ k.accounts.map (·.solver)) (t : Trial α) :
    ∃ accounts, k.Credited t results accounts := by
  induction results generalizing k with
  | nil =>
    refine ⟨k.accounts, rfl, rfl, fun name => ?_, rfl⟩
    simp [Trial.scores, Account.creditAll]
  | cons x results ih =>
    obtain ⟨hx, hresults⟩ := List.forall_mem_cons.mp h
    obtain ⟨first, hfirst⟩ :=
      Account.exists_update? hx (·.credit x (t.gap k.direction x.energy))
    have hkept (a : Account α) : (a.credit x (t.gap k.direction x.energy)).solver = a.solver := rfl
    have hsolvers := Account.map_solver_update? hkept hfirst
    obtain ⟨accounts, hcredited⟩ := ih (k := { k with accounts := first }) (by
      simpa only [hsolvers] using hresults)
    refine ⟨accounts, ?_, hcredited.solvers.trans hsolvers, fun name => ?_, ?_⟩
    · rw [credit, hfirst]
      exact hcredited.credit
    · rw [hcredited.account, Account.find?_update? hkept hfirst, Option.map_map]
      congr 1
      funext a
      by_cases hname : x.solver = name <;> simp [Trial.scores, Account.creditAll, hname]
    · obtain ⟨before, a, after, haccounts, -, -, hfirst⟩ := Account.exists_of_update? hfirst
      rw [hcredited.size, haccounts]
      simp [hfirst, Account.credit]
      omega

section Differences
variable {name : String}

omit [Scalar α] in
theorem find?_add (solver : String) (x : α) (ds : List (Differences α)) :
    (((Differences.add solver x ds).find? (·.solver == name)).map (·.values.toList)).getD [] =
      ((ds.find? (·.solver == name)).map (·.values.toList)).getD [] ++
        if solver = name then [x] else [] := by
  induction ds with
  | nil => by_cases h : solver = name <;> simp [Differences.add, h]
  | cons d rest ih =>
    rw [Differences.add]
    by_cases hd : d.solver = solver
    · by_cases h : solver = name <;> simp [hd, h]
    · rw [if_neg hd]
      by_cases h : d.solver = name
      · have hne : solver ≠ name := fun he => hd (h.trans he.symm)
        simp [h, hne]
      · simp only [beq_iff_eq, h, not_false_eq_true, List.find?_cons_of_neg]
        exact ih

/-- The differences of a solver's results from an energy of the baseline. -/
def differencesFrom (d : Direction) (e : α) (solver : String) (results : List (SolverResult α)) :
    List α :=
  (results.filter fun x => x.solver = solver).map fun x => d.sign (x.energy - e)

theorem differencesOf_compare (hname : name ≠ k.baseline) (e : α) (x : SolverResult α) :
    (compare e k x).differencesOf name =
      k.differencesOf name ++ differencesFrom k.direction e name [x] := by
  unfold compare
  split
  next hx =>
    have hne : x.solver ≠ name := fun h => hname (h.symm.trans hx)
    simp [differencesFrom, hne]
  next =>
    refine (find?_add _ _ _).trans ?_
    by_cases hx : x.solver = name <;> simp [differencesFrom, differencesOf, hx]

/-- Comparing results with the baseline adds the differences of the other solvers' results, and
changes nothing else. -/
theorem foldl_compare (e : α) (results : List (SolverResult α)) (k : Collector α) :
    results.foldl (compare e) k =
      { k with differences := (results.foldl (compare e) k).differences } ∧
      ∀ name, name ≠ k.baseline → (results.foldl (compare e) k).differencesOf name =
        k.differencesOf name ++ differencesFrom k.direction e name results := by
  induction results generalizing k with
  | nil => exact ⟨rfl, fun name _ => (List.append_nil _).symm⟩
  | cons x results ih =>
    have hframe : compare e k x = { k with differences := (compare e k x).differences } := by
      unfold compare
      split <;> rfl
    have hbaseline : (compare e k x).baseline = k.baseline := by rw [hframe]
    have hdirection : (compare e k x).direction = k.direction := by rw [hframe]
    obtain ⟨hrest, hvalues⟩ := ih (compare e k x)
    rw [List.foldl_cons]
    constructor
    · rw [hrest, hframe]
    · intro name hname
      rw [hvalues name (hbaseline ▸ hname), differencesOf_compare hname, hdirection,
        List.append_assoc]
      congr 1
      by_cases hx : x.solver = name <;> simp [differencesFrom, hx]

end Differences

/-- The ways in which the recording of a trial can end. -/
inductive Recording (k : Collector α) (id : String) (t : Trial α) :
    Collector α × Except AnalyticsFault Unit → Prop
  | unmeasured (h : ∀ x ∈ t.results, x.solver ≠ k.baseline) :
      Recording k id t (k, .error (.noBaselineResult k.baseline id))
  | stopped (x : SolverResult α) (rest : List (SolverResult α)) (accounts : List (Account α))
      (hbaseline : ∃ base ∈ t.results, base.solver = k.baseline)
      (hresults : t.results = k.creditable t ++ x :: rest)
      (hunknown : x.solver ∉ k.accounts.map (·.solver))
      (hcredited : k.Credited t (k.creditable t) accounts) :
      Recording k id t ({ k with accounts := accounts }, .error (.unknownSolver x.solver))
  | whole (base : SolverResult α) (accounts : List (Account α))
      (hbase : t.results.find? (·.solver == k.baseline) = some base)
      (hknown : ∀ x ∈ t.results, x.solver ∈ k.accounts.map (·.solver))
      (hcredited : k.Credited t t.results accounts) :
      Recording k id t
        (t.results.foldl (compare base.energy) { k with accounts := accounts }, .ok ())

theorem recording (k : Collector α) (id : String) (t : Trial α) :
    k.Recording id t (k.record id t) := by
  unfold record
  cases hbase : t.results.find? (·.solver == k.baseline) with
  | none => exact .unmeasured (by simpa [List.find?_eq_none] using hbase)
  | some base =>
    have hknown (x : SolverResult α) (hx : x ∈ k.creditable t) := mem_solvers_of_mem_creditable hx
    have hsplit : k.creditable t ++ t.results.dropWhile
        (fun x => decide (x.solver ∈ k.accounts.map (·.solver))) = t.results :=
      List.takeWhile_append_dropWhile
    cases hrest : t.results.dropWhile fun x => decide (x.solver ∈ k.accounts.map (·.solver)) with
    | nil =>
      have hall : k.creditable t = t.results := by rwa [hrest, List.append_nil] at hsplit
      rw [hall] at hknown
      obtain ⟨accounts, hcredited⟩ := exists_credited hknown t
      simp only [hcredited.credit]
      exact .whole base accounts hbase hknown hcredited
    | cons x rest =>
      rw [hrest] at hsplit
      have hunknown : x.solver ∉ k.accounts.map (·.solver) := by
        have hhead := List.head?_dropWhile_not
          (fun x : SolverResult α => decide (x.solver ∈ k.accounts.map (·.solver))) t.results
        rw [hrest] at hhead
        exact of_decide_eq_false hhead
      obtain ⟨accounts, hcredited⟩ := exists_credited hknown t
      have hstop := credit_of_unknown (k := { k with accounts := accounts }) (x := x)
        (hcredited.solvers ▸ hunknown) t rest
      have hcredit := (credit_append hcredited.credit (x :: rest)).trans hstop
      rw [hsplit] at hcredit
      simp only [hcredit]
      have hsolver : base.solver = k.baseline := by simpa using List.find?_some hbase
      exact .stopped x rest accounts ⟨base, List.mem_of_find?_eq_some hbase, hsolver⟩ hsplit.symm
        hunknown hcredited

/-- A trial with a result of the baseline and none of a solver that is not configured. -/
def Admits (k : Collector α) (t : Trial α) : Prop :=
  (∃ x ∈ t.results, x.solver = k.baseline) ∧
    ∀ x ∈ t.results, x.solver ∈ k.accounts.map (·.solver)

theorem record_eq_ok_iff (k : Collector α) (id : String) (t : Trial α) :
    (k.record id t).2 = .ok () ↔ k.Admits t := by
  have hrecording := k.recording id t
  generalize k.record id t = r at hrecording
  cases hrecording with
  | unmeasured h =>
    refine ⟨nofun, ?_⟩
    rintro ⟨⟨base, hbase, heq⟩, -⟩
    exact absurd heq (h base hbase)
  | stopped x rest accounts hbaseline hresults hunknown hcredited =>
    refine ⟨nofun, ?_⟩
    rintro ⟨-, hknown⟩
    exact absurd (hknown x (hresults ▸ by simp)) hunknown
  | whole base accounts hbase hknown hcredited =>
    refine ⟨fun _ => ⟨⟨base, List.mem_of_find?_eq_some hbase, ?_⟩, hknown⟩, fun _ => rfl⟩
    simpa using List.find?_some hbase

/-- What a collector has counted since: some results for their solvers, and some as differences
from the baseline. -/
structure Counts (k : Collector α) (credited compared : List (SolverResult α))
    (after : Collector α) : Prop where
  frame : after = { k with accounts := after.accounts, differences := after.differences }
  solvers : after.accounts.map (·.solver) = k.accounts.map (·.solver)
  trials : ∀ name, after.trialsOf name = k.trialsOf name + credited.countP (·.solver = name)
  differences : ∀ name, name ≠ k.baseline → (after.differencesOf name).length =
    (k.differencesOf name).length + compared.countP (·.solver = name)

theorem Credited.trialsOf (h : k.Credited t results accounts)
    (hknown : ∀ x ∈ results, x.solver ∈ k.accounts.map (·.solver)) (name : String) :
    ({ k with accounts := accounts } : Collector α).trialsOf name =
      k.trialsOf name + results.countP (·.solver = name) := by
  unfold Collector.trialsOf
  rw [h.account name]
  cases hname : k.accounts.find? (·.solver == name) with
  | none =>
    have hnone : results.countP (·.solver = name) = 0 := by
      rw [List.countP_eq_zero]
      intro x hx hsolver
      obtain ⟨a, ha, heq⟩ := List.mem_map.mp (hknown x hx)
      exact List.find?_eq_none.mp hname a ha (by simpa [heq] using hsolver)
    simp [hnone]
  | some a => simp [Account.size_energies_creditAll, Trial.scores, List.countP_eq_length_filter]

theorem Credited.counts (h : k.Credited t results accounts)
    (hknown : ∀ x ∈ results, x.solver ∈ k.accounts.map (·.solver)) :
    k.Counts results [] { k with accounts := accounts } :=
  ⟨rfl, h.solvers, h.trialsOf hknown, fun _ _ => rfl⟩

/-- A summary shows how many results have been credited. -/
theorem Credited.summary_ne [Transcendental α] [NormalLaw α] (h : k.Credited t results accounts)
    (hresults : results ≠ []) :
    ({ k with accounts := accounts } : Collector α).summary ≠ k.summary := by
  intro hsummary
  have htrials (k : Collector α) :
      k.summary.reports.map (·.trials) = k.accounts.map (·.energies.size) := by
    simp [summary, Account.report, Function.comp_def]
  have hsize := h.size
  have hsame := htrials { k with accounts := accounts }
  rw [hsummary, htrials] at hsame
  rw [← hsame] at hsize
  exact hresults (List.length_eq_zero_iff.mp (by omega))

theorem counts_whole {base : SolverResult α} (hcredited : k.Credited t t.results accounts)
    (hknown : ∀ x ∈ t.results, x.solver ∈ k.accounts.map (·.solver)) :
    k.Counts t.results t.results
      (t.results.foldl (compare base.energy) { k with accounts := accounts }) := by
  obtain ⟨hframe, hvalues⟩ := foldl_compare base.energy t.results { k with accounts := accounts }
  constructor
  · rw [hframe]
  · rw [hframe]
    exact hcredited.solvers
  · intro name
    rw [hframe]
    exact hcredited.trialsOf hknown name
  · intro name hname
    rw [hvalues name hname, List.length_append, differencesFrom, List.length_map,
      ← List.countP_eq_length_filter]
    rfl

/-- A trial is recorded whole exactly if the baseline and only configured solvers have results in
it: then each result counts as a trial of its solver, and each one of another solver than the
baseline as a difference. Without a result of the baseline, or when the first result is one of an
unknown solver, nothing changes. Else a result of an unknown solver stops the recording halfway:
what stands before it stays credited, no difference is taken, and the summary shows it. -/
theorem records_whole_unless_stopped [Transcendental α] [NormalLaw α] (k : Collector α)
    (id : String) (t : Trial α) :
    let after := (k.record id t).1
    let answer := (k.record id t).2
    let credited := k.creditable t
    (answer = .ok () ↔ k.Admits t) ∧
    (answer = .ok () → k.Counts t.results t.results after) ∧
    (∀ fault, answer = .error fault →
      (∀ x ∈ t.results, x.solver ≠ k.baseline) ∨ credited = [] →
      after = k ∧ after.summary = k.summary) ∧
    ∀ fault, answer = .error fault → (∃ x ∈ t.results, x.solver = k.baseline) → credited ≠ [] →
      (∃ x rest, t.results = credited ++ x :: rest ∧ fault = .unknownSolver x.solver) ∧
      after = { k with accounts := after.accounts } ∧ k.Counts credited [] after ∧
      after.summary ≠ k.summary := by
  refine ⟨k.record_eq_ok_iff id t, ?_⟩
  have hrecording := k.recording id t
  generalize k.record id t = r at hrecording
  cases hrecording with
  | unmeasured h =>
    refine ⟨nofun, fun _ _ _ => ⟨rfl, rfl⟩, ?_⟩
    rintro _ - ⟨base, hbase, heq⟩
    exact absurd heq (h base hbase)
  | stopped x rest accounts hbaseline hresults hunknown hcredited =>
    refine ⟨nofun, ?_, ?_⟩
    · rintro _ - (h | hnone)
      · obtain ⟨base, hbase, heq⟩ := hbaseline
        exact absurd heq (h base hbase)
      · have hcredit := hcredited.credit
        rw [show k.creditable t = [] from hnone] at hcredit
        have hsame : ({ k with accounts := accounts } : Collector α) = k :=
          (Prod.mk.inj hcredit).1.symm
        exact ⟨hsame, congrArg summary hsame⟩
    · rintro fault hfault - hsome
      exact ⟨⟨x, rest, hresults, (Except.error.inj hfault).symm⟩, rfl,
        hcredited.counts fun x => mem_solvers_of_mem_creditable, hcredited.summary_ne hsome⟩
  | whole base accounts hbase hknown hcredited =>
    exact ⟨fun _ => counts_whole hcredited hknown, nofun, nofun⟩

/-- Two solvers that both have a result, and a trial in which the baseline has none. -/
theorem records_whole_unless_stopped_of_rivals :
    letI : Transcendental ℚ := ⟨id, id, id, id⟩
    letI : NormalLaw ℚ := ⟨id⟩
    let k : Collector ℚ := ⟨"exhaustive", .maximize, 1000,
      [.new ⟨"exhaustive", .bruteForce, .null⟩, .new ⟨"annealed", .anneal, .null⟩], []⟩
    let x : SolverResult ℚ := ⟨"exhaustive", .bruteForce, 3, .dense (.ofPacked 5 4), 1, 0, 2⟩
    let y : SolverResult ℚ := ⟨"annealed", .anneal, 2, .dense (.ofPacked 4 4), 1, 10, 2⟩
    ((k.record "I00000_T00" ⟨3, [x, y]⟩).2 = .ok () ∧
      k.Counts [x, y] [x, y] (k.record "I00000_T00" ⟨3, [x, y]⟩).1) ∧
    (k.record "I00000_T01" ⟨2, [y]⟩).2 = .error (.noBaselineResult "exhaustive" "I00000_T01") ∧
      (k.record "I00000_T01" ⟨2, [y]⟩).1 = k := by
  intro k x y
  obtain ⟨-, hwhole, -, -⟩ :=
    @records_whole_unless_stopped ℚ _ ⟨id, id, id, id⟩ ⟨id⟩ k "I00000_T00" ⟨3, [x, y]⟩
  obtain ⟨-, -, hnone, -⟩ :=
    @records_whole_unless_stopped ℚ _ ⟨id, id, id, id⟩ ⟨id⟩ k "I00000_T01" ⟨2, [y]⟩
  exact ⟨⟨rfl, hwhole rfl⟩, rfl, (hnone _ rfl (Or.inl (by decide))).1⟩

/-- A result of the baseline before one of a solver that is not configured stays credited, though
the trial is refused. -/
theorem record_of_stranger :
    letI : Transcendental ℚ := ⟨id, id, id, id⟩
    letI : NormalLaw ℚ := ⟨id⟩
    let k : Collector ℚ :=
      ⟨"exhaustive", .maximize, 1000, [.new ⟨"exhaustive", .bruteForce, .null⟩], []⟩
    let x : SolverResult ℚ := ⟨"exhaustive", .bruteForce, 3, .dense (.ofPacked 5 4), 1, 0, 2⟩
    let y : SolverResult ℚ := ⟨"stranger", .anneal, 2, .dense (.ofPacked 4 4), 1, 10, 2⟩
    let after := (k.record "I00000_T00" ⟨3, [x, y]⟩).1
    (k.record "I00000_T00" ⟨3, [x, y]⟩).2 = .error (.unknownSolver "stranger") ∧
      after ≠ k ∧ k.trialsOf "exhaustive" = 0 ∧ after.trialsOf "exhaustive" = 1 ∧
      after.summary.reports.map (·.trials) ≠ k.summary.reports.map (·.trials) := by
  intro k x y after
  refine ⟨rfl, ?_, rfl, rfl, by decide⟩
  intro h
  exact absurd (congrArg (trialsOf · "exhaustive") h) (by decide)

end Collector

end Qubo.Benchmark

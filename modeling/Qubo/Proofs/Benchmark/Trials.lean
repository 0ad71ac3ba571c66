import Mathlib.Tactic
import Qubo.Proofs.Benchmark.Recording

/-! Recording several trials one after the other: which lists of trials are recorded, and what each
account and each list of differences holds then. -/
namespace Qubo.Benchmark
variable {α : Type} [Scalar α]

/-- How much worse than the baseline a solver's results are in a trial. -/
def Trial.differences (t : Trial α) (d : Direction) (baseline solver : String) : List α :=
  (t.results.find? (·.solver == baseline)).elim [] fun base =>
    Collector.differencesFrom d base.energy solver t.results

/-- Each result of a solver is compared with the baseline. -/
theorem Trial.length_differences {t : Trial α} {baseline : String}
    (h : ∃ x ∈ t.results, x.solver = baseline) (d : Direction) (solver : String) :
    (t.differences d baseline solver).length =
      (t.results.filter fun x => x.solver = solver).length := by
  obtain ⟨base, hbase⟩ : ∃ base, t.results.find? (·.solver == baseline) = some base :=
    Option.isSome_iff_exists.mp (List.find?_isSome.mpr (by simpa using h))
  simp [differences, hbase, Collector.differencesFrom]

namespace Account

omit [Scalar α] in
theorem map_solver_insert (a : Account α) (accounts : List (Account α)) :
    (insert a accounts).map (·.solver) = if a.solver ∈ accounts.map (·.solver) then
      accounts.map (·.solver) else accounts.map (·.solver) ++ [a.solver] := by
  induction accounts with
  | nil => rfl
  | cons b rest ih =>
    rw [insert]
    by_cases hb : b.solver = a.solver
    · simp [hb]
    · rw [if_neg hb, List.map_cons, ih]
      simp only [List.map_cons, List.mem_cons, Ne.symm hb, false_or]
      split <;> rfl

theorem nodup_foldl_insert (sections : List SolverSection) {accounts : List (Account α)}
    (h : (accounts.map (·.solver)).Nodup) :
    ((sections.foldl (fun accounts s => insert (new s) accounts) accounts).map
      (·.solver)).Nodup := by
  induction sections generalizing accounts with
  | nil => exact h
  | cons s rest ih =>
    apply ih
    rw [map_solver_insert]
    split
    · exact h
    next hfresh => exact List.concat_eq_append ▸ h.concat hfresh

end Account

namespace Collector

/-- A name that is given twice in a configuration has one account. -/
theorem nodup_new {c : Config} {k : Collector α} (h : new c = .ok k) :
    (k.accounts.map (·.solver)).Nodup := by
  unfold new at h
  split at h
  · cases h
  · obtain rfl := Except.ok.inj h
    exact Account.nodup_foldl_insert c.solvers List.nodup_nil

/-- Records trials with their names, up to the first that is refused. -/
def recordAll (k : Collector α) : List (String × Trial α) → Except AnalyticsFault (Collector α)
  | [] => .ok k
  | (id, t) :: rest =>
    match k.record id t with
    | (after, .ok ()) => after.recordAll rest
    | (_, .error fault) => .error fault

/-- A collector after some trials: each solver has been credited with its results in them, and each
but the baseline compared in them. -/
structure Holds (k : Collector α) (trials : List (Trial α)) (after : Collector α) : Prop where
  frame : after = { k with accounts := after.accounts, differences := after.differences }
  accounts : after.accounts = k.accounts.map fun a =>
    a.creditAll (trials.flatMap fun t => t.scores k.direction a.solver t.results)
  differences : ∀ name, name ≠ k.baseline → after.differencesOf name =
    k.differencesOf name ++ trials.flatMap fun t => t.differences k.direction k.baseline name

variable {k after : Collector α} {t : Trial α} {trials : List (Trial α)}

theorem Holds.baseline (h : k.Holds trials after) : after.baseline = k.baseline := by rw [h.frame]

theorem Holds.direction (h : k.Holds trials after) : after.direction = k.direction := by
  rw [h.frame]

theorem Holds.map_solver (h : k.Holds trials after) :
    after.accounts.map (·.solver) = k.accounts.map (·.solver) := by
  simp [h.accounts, Function.comp_def]

theorem Holds.admits_iff (h : k.Holds trials after) : after.Admits t ↔ k.Admits t := by
  rw [Admits, Admits, h.map_solver, h.baseline]

theorem Holds.append {later : Collector α} {trials' : List (Trial α)} (h : k.Holds trials after)
    (h' : after.Holds trials' later) : k.Holds (trials ++ trials') later := by
  constructor
  · rw [h'.frame, h.frame]
  · rw [h'.accounts, h.accounts, List.map_map]
    apply List.map_congr_left
    intro a _
    rw [Function.comp_apply, ← Account.creditAll_append, Account.solver_creditAll, h.direction,
      List.flatMap_append]
  · intro name hname
    rw [h'.differences name (h.baseline ▸ hname), h.differences name hname, h.baseline,
      h.direction, List.append_assoc, List.flatMap_append]

section
variable (hnodup : (k.accounts.map (·.solver)).Nodup)
include hnodup

theorem Credited.accounts_eq {results : List (SolverResult α)} {accounts : List (Account α)}
    (h : k.Credited t results accounts) : accounts = k.accounts.map fun a =>
      a.creditAll (t.scores k.direction a.solver results) := by
  have hsolvers : (k.accounts.map fun a =>
      a.creditAll (t.scores k.direction a.solver results)).map (·.solver) =
        k.accounts.map (·.solver) := by
    simp [Function.comp_def]
  refine Account.eq_of_find? (h.solvers.trans hsolvers.symm) (hsolvers ▸ hnodup) fun name => ?_
  rw [h.account, List.find?_map]
  simp only [Function.comp_def, Account.solver_creditAll]
  refine Option.map_congr fun a ha => ?_
  rw [show a.solver = name by simpa using List.find?_some ha]

theorem exists_record_of_admits (h : k.Admits t) (id : String) :
    ∃ after, k.record id t = (after, .ok ()) ∧ k.Holds [t] after := by
  have hok := (k.record_eq_ok_iff id t).mpr h
  have hrecording := k.recording id t
  generalize k.record id t = r at hok hrecording
  cases hrecording with
  | unmeasured => cases hok
  | stopped => cases hok
  | whole base accounts hbase hknown hcredited =>
    obtain ⟨hframe, hvalues⟩ :=
      foldl_compare base.energy t.results { k with accounts := accounts }
    refine ⟨_, rfl, by rw [hframe], ?_, fun name hname => ?_⟩
    · rw [hframe]
      simpa using hcredited.accounts_eq hnodup
    · rw [hvalues name hname]
      simp [Trial.differences, hbase]
      rfl

/-- Trials are recorded exactly if each of them is admitted from the start. -/
theorem exists_recordAll_iff (entries : List (String × Trial α)) :
    (∃ after, k.recordAll entries = .ok after) ↔ ∀ entry ∈ entries, k.Admits entry.2 := by
  induction entries generalizing k with
  | nil => simp [recordAll]
  | cons entry rest ih =>
    obtain ⟨id, t⟩ := entry
    rw [List.forall_mem_cons, recordAll]
    by_cases ht : k.Admits t
    · obtain ⟨after, hrecord, hholds⟩ := exists_record_of_admits hnodup ht id
      simp only [hrecord, ht, true_and]
      rw [ih (hholds.map_solver ▸ hnodup)]
      simp only [hholds.admits_iff]
    · have hfault : (k.record id t).2 ≠ .ok () := mt (k.record_eq_ok_iff id t).mp ht
      generalize k.record id t = r at hfault
      obtain ⟨after, _ | _⟩ := r
      · simp [ht]
      · exact absurd rfl hfault

theorem holds_of_recordAll {entries : List (String × Trial α)}
    (h : k.recordAll entries = .ok after) : k.Holds (entries.map (·.2)) after := by
  induction entries generalizing k with
  | nil =>
    obtain rfl := Except.ok.inj h
    exact ⟨rfl, by simp [Account.creditAll], by simp⟩
  | cons entry rest ih =>
    obtain ⟨id, t⟩ := entry
    obtain ⟨ht, -⟩ := List.forall_mem_cons.mp ((exists_recordAll_iff hnodup _).mp ⟨_, h⟩)
    obtain ⟨next, hrecord, hholds⟩ := exists_record_of_admits hnodup ht id
    rw [recordAll, hrecord] at h
    exact hholds.append (ih (hholds.map_solver ▸ hnodup) h)

end

end Collector

end Qubo.Benchmark

import Mathlib.Tactic
import Qubo.Benchmark.Run
import Qubo.Proofs.Benchmark.Trials

/-! Accounts and rows: what the trials of a run are collected to is what its rows add up to, solver
by solver. -/
namespace Qubo.Benchmark
variable {α : Type}

def rowsOf (solver : String) (rows : List (Row α)) : List (Row α) :=
  rows.filter fun row => row.result.solver = solver

theorem rowsOf_append (solver : String) (rows rows' : List (Row α)) :
    rowsOf solver (rows ++ rows') = rowsOf solver rows ++ rowsOf solver rows' :=
  List.filter_append _ _

variable [Scalar α]

theorem rowsOf_map_row (solver : String) (c : Config) (r : Round α) (t : Trial α)
    (results : List (SolverResult α)) : rowsOf solver (results.map (Progress.row c r t)) =
      (results.filter fun x => x.solver = solver).map (Progress.row c r t) := by
  rw [rowsOf, List.filter_map]
  rfl

namespace Account

def ofRows (s : SolverSection) (rows : List (Row α)) : Account α :=
  (rowsOf s.name rows).foldl (fun a row => a.credit row.result row.gap) (new s)

theorem ofRows_append (s : SolverSection) (rows rows' : List (Row α)) :
    ofRows s (rows ++ rows') =
      (rowsOf s.name rows').foldl (fun a row => a.credit row.result row.gap) (ofRows s rows) := by
  rw [ofRows, rowsOf_append, List.foldl_append]
  rfl

theorem foldl_credit (rows : List (Row α)) (a : Account α) :
    rows.foldl (fun a row => a.credit row.result row.gap) a = { a with
      energies := a.energies ++ rows.map (·.result.energy)
      totalGap := (rows.map (·.gap)).foldl (· + ·) a.totalGap
      hits := a.hits + .ofNat (rows.countP fun row => isHit row.gap)
      totalMs := (rows.map (·.result.elapsedMs)).foldl (· + ·) a.totalMs
      totalSteps := a.totalSteps + .ofNat (rows.map (·.result.steps)).sum } := by
  have hscores := creditAll_eq (rows.map fun row => (row.result, row.gap)) a
  simpa only [creditAll, List.foldl_map, List.map_map, List.countP_map, Function.comp_def] using
    hscores

theorem solver_ofRows (s : SolverSection) (rows : List (Row α)) :
    (ofRows s rows).solver = s.name := by
  rw [ofRows, foldl_credit]
  rfl

section Lists
variable {sections : List SolverSection}

omit [Scalar α] in
theorem insert_of_forall_ne {a : Account α} {accounts : List (Account α)}
    (h : ∀ b ∈ accounts, b.solver ≠ a.solver) : insert a accounts = accounts ++ [a] := by
  induction accounts with
  | nil => rfl
  | cons b rest ih =>
    rw [insert, if_neg (h b List.mem_cons_self), ih fun b' hb' => h b' (List.mem_cons_of_mem _ hb')]
    rfl

/-- Solvers of different names have accounts of their own, in their order. -/
theorem foldl_insert_new {accounts : List (Account α)} (hnodup : (sections.map (·.name)).Nodup)
    (h : ∀ b ∈ accounts, b.solver ∉ sections.map (·.name)) :
    sections.foldl (fun accounts s => insert (new s) accounts) accounts =
      accounts ++ sections.map new := by
  induction sections generalizing accounts with
  | nil => simp
  | cons s rest ih =>
    rw [List.map_cons, List.nodup_cons] at hnodup
    have hinsert : insert (new s) accounts = accounts ++ [new s] := by
      apply insert_of_forall_ne
      intro b hb heq
      exact h b hb (heq ▸ List.mem_cons_self)
    rw [List.foldl_cons, hinsert, ih hnodup.2, List.append_assoc]
    · rfl
    · intro b hb
      rcases List.mem_append.mp hb with hb | hb
      · exact fun hmem => h b hb (List.mem_cons_of_mem _ hmem)
      · obtain rfl := List.mem_singleton.mp hb
        exact hnodup.1

end Lists

end Account

namespace Collector

/-- A collector that holds what some rows of a configuration add up to. -/
structure Collected (c : Config) (rows : List (Row α)) (k : Collector α) : Prop where
  baseline : c.metrics.baseline = some k.baseline
  direction : k.direction = c.problem.direction
  accounts : k.accounts = c.solvers.map fun s => Account.ofRows s rows
  differences : ∀ name, name ≠ k.baseline →
    (k.differencesOf name).length = (rowsOf name rows).length

theorem collected_new {c : Config} (hnodup : (c.solvers.map (·.name)).Nodup) {k : Collector α}
    (h : new c = .ok k) : Collected c [] k := by
  unfold new at h
  split at h
  · cases h
  next hbaseline =>
    obtain rfl := Except.ok.inj h
    constructor
    · exact hbaseline
    · rfl
    · exact Account.foldl_insert_new hnodup (by simp)
    · intro name _
      rfl

/-- A trial with a result of each configured solver is recorded, and what it adds are its rows. -/
theorem Collected.record {c : Config} {rows : List (Row α)} {k : Collector α}
    (h : Collected c rows k) (hnodup : (c.solvers.map (·.name)).Nodup)
    (hbaseline : k.baseline ∈ c.solvers.map (·.name)) {t : Trial α}
    (ht : t.results.map (·.solver) = c.solvers.map (·.name)) (r : Round α) (id : String) :
    ∃ k', k.record id t = (k', .ok ()) ∧
      Collected c (rows ++ t.results.map (Progress.row c r t)) k' := by
  have hsolvers : k.accounts.map (·.solver) = c.solvers.map (·.name) := by
    rw [h.accounts, List.map_map]
    exact List.map_congr_left fun s _ => Account.solver_ofRows s rows
  have hadmits : k.Admits t := by
    refine ⟨List.mem_map.mp (ht ▸ hbaseline), fun x hx => ?_⟩
    rw [hsolvers, ← ht]
    exact List.mem_map_of_mem hx
  obtain ⟨after, hrecord, hholds⟩ := exists_record_of_admits (hsolvers ▸ hnodup) hadmits id
  refine ⟨after, hrecord, hholds.baseline ▸ h.baseline, hholds.direction.trans h.direction, ?_, ?_⟩
  · rw [hholds.accounts, h.accounts, List.map_map]
    apply List.map_congr_left
    intro s _
    rw [Account.ofRows_append, rowsOf_map_row, List.foldl_map, Function.comp_apply,
      Account.solver_ofRows, h.direction]
    simp only [Account.creditAll, Trial.scores, List.flatMap_singleton, List.foldl_map]
    rfl
  · intro name hname
    rw [hholds.baseline] at hname
    rw [hholds.differences name hname, List.length_append, h.differences name hname, rowsOf_append,
      rowsOf_map_row, List.length_append, List.length_map, List.flatMap_singleton,
      Trial.length_differences hadmits.1]

end Collector

end Qubo.Benchmark

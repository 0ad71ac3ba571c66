import Mathlib.Tactic
import Qubo.Benchmark.Config.Rules
import Qubo.Proofs.Result

/-! What an accepted configuration promises of the problems that its solvers are run on. -/
namespace Qubo.Benchmark

theorem checkProblem_eq_ok_iff {p : ProblemSection} {solvers : List SolverSection} :
    checkProblem p solvers = .ok () ↔ p.graph ≠ .sparse ∧ 0 < p.n0 ∧
      (p.graph = .rbm → 0 < p.n1) ∧ 0 < p.instances ∧ 0 < p.trials ∧
      (.bruteForce ∈ solvers.map (·.strategy) → p.variableCount ≤ maxSearchVariables) := by
  have hany : solvers.any (·.strategy == .bruteForce) = true ↔
      .bruteForce ∈ solvers.map (·.strategy) := by
    simp [List.any_eq_true, List.mem_map]
  rw [← hany]
  unfold checkProblem
  split_ifs <;> simp_all [Nat.pos_iff_ne_zero]
  assumption

def nameAlphabet : List Char :=
  "abcdefghijklmnopqrstuvwxyzABCDEFGHIJKLMNOPQRSTUVWXYZ0123456789._-".toList

theorem isNameChar_iff {c : Char} : isNameChar c = true ↔ c ∈ nameAlphabet := by
  constructor
  · intro h
    have hsmall : c.toNat < 128 := by
      have h : (decide ('A'.val ≤ c.val ∧ c.val ≤ 'Z'.val) ||
          (decide ('a'.val ≤ c.val) && decide (c.val ≤ 'z'.val)) ||
          (decide ('0'.val ≤ c.val) && decide (c.val ≤ '9'.val)) ||
          c == '.' || c == '_' || c == '-') = true := h
      simp only [Bool.or_eq_true, Bool.and_eq_true, decide_eq_true_eq, beq_iff_eq] at h
      rcases h with ((((⟨-, h⟩ | ⟨-, h⟩) | ⟨-, h⟩) | rfl) | rfl) | rfl
      · exact lt_of_le_of_lt (UInt32.le_iff_toNat_le.mp h) (by decide)
      · exact lt_of_le_of_lt (UInt32.le_iff_toNat_le.mp h) (by decide)
      · exact lt_of_le_of_lt (UInt32.le_iff_toNat_le.mp h) (by decide)
      all_goals decide
    have hall : ∀ n < 128, isNameChar (Char.ofNat n) = true → Char.ofNat n ∈ nameAlphabet := by
      decide +kernel
    have hmem := hall c.toNat hsmall
    rw [Char.ofNat_toNat] at hmem
    exact hmem h
  · have hall : nameAlphabet.all isNameChar = true := by decide +kernel
    exact List.all_eq_true.mp hall c

@[simp] theorem SolverSection.name_settled (s : SolverSection) : s.settled.name = s.name := by
  unfold settled
  split <;> rfl

@[simp] theorem SolverSection.strategy_settled (s : SolverSection) :
    s.settled.strategy = s.strategy := by
  unfold settled
  split <;> rfl

@[simp] theorem LogSection.enabled_settled (l : LogSection) : l.settled.enabled = l.enabled := by
  unfold settled
  split <;> rfl

@[simp] theorem LogSection.solverDetails_settled (l : LogSection) :
    l.settled.solverDetails = l.solverDetails := by
  unfold settled
  split <;> rfl

theorem checkName_eq_ok {before : List String} {name : String}
    (h : checkName before name = .ok ()) : name ∉ before := by
  unfold checkName at h
  split_ifs at h with hblank hchars hrepeated
  simpa using hrepeated

/-- What the check of solvers leaves differs from them in what was blank alone. -/
theorem map_checkSolvers {β : Type} {f : SolverSection → β} (hf : ∀ s, f s.settled = f s)
    (before : List String) (solvers : List SolverSection) :
    (checkSolvers before solvers).1.map f = solvers.map f := by
  induction solvers generalizing before with
  | nil => rfl
  | cons s solvers ih =>
    rw [checkSolvers]
    cases checkName before s.name with
    | error v => rfl
    | ok u => rw [List.map_cons, List.map_cons, ih, hf]

/-- Solvers that are accepted have different names, none of which stands before them. -/
theorem nodup_of_checkSolvers {before : List String} {solvers : List SolverSection}
    (h : (checkSolvers before solvers).2 = .ok ()) :
    (solvers.map (·.name)).Nodup ∧ ∀ s ∈ solvers, s.name ∉ before := by
  induction solvers generalizing before with
  | nil => simp
  | cons s solvers ih =>
    rw [checkSolvers] at h
    cases hname : checkName before s.name with
    | error v =>
      rw [hname] at h
      cases h
    | ok u =>
      rw [hname] at h
      obtain ⟨hnodup, hbefore⟩ := ih h
      constructor
      · rw [List.map_cons, List.nodup_cons]
        refine ⟨fun hmem => ?_, hnodup⟩
        obtain ⟨s', hs', heq⟩ := List.mem_map.mp hmem
        exact hbefore s' hs' (heq ▸ List.mem_cons_self)
      · intro s' hs'
        rcases List.mem_cons.mp hs' with rfl | hs'
        · exact checkName_eq_ok hname
        · exact fun hmem => hbefore s' hs' (List.mem_cons_of_mem _ hmem)

theorem check_eq_ok_iff {c : Config} : c.check.result = .ok () ↔
    checkRunId c.runId = .ok () ∧ c.solvers ≠ [] ∧ (checkSolvers [] c.solvers).2 = .ok () ∧
      checkProblem c.problem (checkSolvers [] c.solvers).1 = .ok () ∧
      checkOutputs c.runId c.outputs = .ok () ∧
      checkMetrics c.metrics (checkSolvers [] c.solvers).1 = .ok () := by
  unfold Config.check
  cases checkRunId c.runId with
  | error v => simp
  | ok u =>
    by_cases hempty : c.solvers = []
    · simp [hempty]
    · have hrest {x y z w : Except Violation Unit} : (do x; y; z; w) = .ok () ↔
          x = .ok () ∧ y = .ok () ∧ z = .ok () ∧ w = .ok () := by
        cases x <;> cases y <;> cases z <;> cases w <;> simp [bind, Except.bind]
      simp only [List.isEmpty_iff, hempty, ↓reduceIte, not_false_eq_true, ne_eq, true_and]
      rw [← hrest]
      split
      next h => simp [h]
      next h => simp [h]

theorem config_check_eq {c : Config} (h : c.check.result = .ok ()) : c.check.config =
    { c with solvers := (checkSolvers [] c.solvers).1, logging := c.logging.settled } := by
  obtain ⟨hrun, hne, hsolvers, hproblem, houtputs, hmetrics⟩ := check_eq_ok_iff.mp h
  simp [Config.check, hrun, hne, hsolvers, hproblem, houtputs, hmetrics, bind, Except.bind]

theorem checkSolvers_eq_map {before : List String} {solvers : List SolverSection}
    (h : (checkSolvers before solvers).2 = .ok ()) :
    (checkSolvers before solvers).1 = solvers.map SolverSection.settled := by
  induction solvers generalizing before with
  | nil => rfl
  | cons s solvers ih =>
    rw [checkSolvers] at h ⊢
    cases hname : checkName before s.name with
    | error v =>
      rw [hname] at h
      cases h
    | ok u =>
      rw [hname] at h
      exact congrArg (s.settled :: ·) (ih h)

theorem solvers_check {c : Config} (h : c.check.result = .ok ()) :
    c.check.config.solvers = c.solvers.map SolverSection.settled := by
  rw [config_check_eq h]
  exact checkSolvers_eq_map (check_eq_ok_iff.mp h).2.2.1

/-- Solvers are checked by their names alone. -/
theorem checkSolvers_congr {solvers solvers' : List SolverSection}
    (h : solvers.map (·.name) = solvers'.map (·.name)) (before : List String) :
    (checkSolvers before solvers).2 = (checkSolvers before solvers').2 := by
  induction solvers generalizing before solvers' with
  | nil =>
    obtain rfl := List.map_eq_nil_iff.mp h.symm
    rfl
  | cons s solvers ih =>
    obtain ⟨s', rest, rfl, hname, hrest⟩ := List.map_eq_cons_iff.mp h.symm
    rw [checkSolvers, checkSolvers, hname]
    cases checkName before s.name with
    | error v => rfl
    | ok u => exact ih hrest.symm _

theorem checkMetrics_eq_ok_iff {m : MetricSection} {solvers : List SolverSection} :
    checkMetrics m solvers = .ok () ↔
      ∃ name, m.baseline = some name ∧ name ∈ solvers.map (·.name) ∧ m.budgetMs ≠ 0 := by
  unfold checkMetrics
  cases m.baseline with
  | none => simp
  | some name =>
    have hany : solvers.any (·.name == name) = true ↔ name ∈ solvers.map (·.name) := by
      simp [List.any_eq_true, List.mem_map]
    simp only [Option.some_inj, exists_eq_left', ← hany]
    split_ifs <;> simp_all

/-- A configuration that is accepted is accepted again after it has been settled. -/
theorem check_config_check {c : Config} (h : c.check.result = .ok ()) :
    c.check.config.check.result = .ok () := by
  have hnames := map_checkSolvers SolverSection.name_settled [] c.solvers
  obtain ⟨hrun, hne, hsolvers, hproblem, houtputs, hmetrics⟩ := check_eq_ok_iff.mp h
  rw [config_check_eq h, check_eq_ok_iff]
  refine ⟨hrun, fun hnil => hne ?_, ?_, ?_, houtputs, ?_⟩
  · have hnil : (checkSolvers [] c.solvers).1 = [] := hnil
    exact List.map_eq_nil_iff.mp (hnames.symm.trans (congrArg _ hnil))
  · rw [checkSolvers_congr hnames]
    exact hsolvers
  · rw [checkProblem_eq_ok_iff] at hproblem ⊢
    rwa [map_checkSolvers SolverSection.strategy_settled]
  · rw [checkMetrics_eq_ok_iff] at hmetrics ⊢
    rwa [map_checkSolvers SolverSection.name_settled]

/-- Settling what is left blank does not change which solvers there are. -/
theorem exists_checkProblem_of_check {c : Config} (h : c.check.result = .ok ()) :
    ∃ solvers, solvers.map (·.strategy) = c.solvers.map (·.strategy) ∧
      checkProblem c.problem solvers = .ok () := by
  obtain ⟨-, -, -, hproblem, -⟩ := check_eq_ok_iff.mp h
  exact ⟨_, map_checkSolvers SolverSection.strategy_settled [] c.solvers, hproblem⟩

end Qubo.Benchmark

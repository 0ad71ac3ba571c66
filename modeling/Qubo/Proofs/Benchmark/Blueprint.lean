import Mathlib.Tactic
import Qubo.Benchmark.Blueprint
import Qubo.Proofs.Result
import Qubo.Proofs.Schedule.Decay

/-! Which parameters of configured solvers are accepted, which schedules they stand for, and which
solver is to blame if some are not. -/
namespace Qubo.Benchmark
open Yaml

inductive ScheduleField where
  | gStart
  | gEnd
  | tau
  | kt
  | trotters
  deriving DecidableEq, Repr

/-- What a field of a schedule holds. -/
inductive Setting where
  | number (x : Float)
  | count (n : Option Nat)
  deriving Repr

namespace ScheduleField

def name : ScheduleField → String
  | .gStart => "g_start"
  | .gEnd => "g_end"
  | .tau => "tau"
  | .kt => "kt"
  | .trotters => "trotters"

/-- What a value sets a field to. -/
def read? (field : ScheduleField) (v : Value) : Option Setting :=
  match field with
  | .trotters => (countOf? v).map .count
  | _ => (floatOf? v).map .number

def get (s : Schedule Float) : ScheduleField → Setting
  | .gStart => .number s.gStart
  | .gEnd => .number s.gEnd
  | .tau => .number s.tau
  | .kt => .number s.kt
  | .trotters => .count s.trotters

theorem name_injective : Function.Injective name := by
  intro field other
  cases field <;> cases other <;> decide

theorem eq_of_get {s t : Schedule Float} (h : ∀ field, get s field = get t field) : s = t := by
  cases s
  cases t
  have hstart := h .gStart
  have hend := h .gEnd
  have htau := h .tau
  have hkt := h .kt
  have htrotters := h .trotters
  simp_all [get]

end ScheduleField

open ScheduleField

theorem exists_name_of_setField {s t : Schedule Float} {name : String} {v : Value}
    (h : setField s name v = some t) : ∃ field : ScheduleField, name = field.name := by
  unfold setField at h
  split at h
  · exact ⟨.gStart, rfl⟩
  · exact ⟨.gEnd, rfl⟩
  · exact ⟨.tau, rfl⟩
  · exact ⟨.kt, rfl⟩
  · exact ⟨.trotters, rfl⟩
  · cases h

theorem exists_setField {field : ScheduleField} {v : Value} {x : Setting}
    (h : field.read? v = some x) (s : Schedule Float) :
    ∃ t, setField s field.name v = some t := by
  cases field <;> obtain ⟨y, hy, -⟩ := Option.map_eq_some_iff.mp h <;>
    exact ⟨_, Option.map_eq_some_iff.mpr ⟨y, hy, rfl⟩⟩

/-- Setting a field changes it to what has been read, and no other. -/
theorem get_setField {s t : Schedule Float} {field : ScheduleField} {v : Value}
    (h : setField s field.name v = some t) :
    field.read? v = some (get t field) ∧ ∀ other ≠ field, get t other = get s other := by
  cases field <;> obtain ⟨y, hy, rfl⟩ := Option.map_eq_some_iff.mp h <;>
    refine ⟨Option.map_eq_some_iff.mpr ⟨y, hy, rfl⟩, fun other hother => ?_⟩ <;>
    cases other <;> first | rfl | exact absurd rfl hother

/-- A schedule that holds what entries set it to, and what another one holds where they set
nothing. Each entry names a field and can be read as what that field holds, and no two name the
same one. -/
structure Overrides (entries : List (Value × Value)) (s t : Schedule Float) : Prop where
  sets : ∀ entry ∈ entries, ∃ field : ScheduleField, fieldName? entry = some field.name ∧
    field.read? entry.2 = some (get t field)
  once : (entries.map fieldName?).Nodup
  keeps : ∀ field : ScheduleField, some field.name ∉ entries.map fieldName? →
    get t field = get s field

theorem foldlM_setEntry_eq_some_iff {entries : List (Value × Value)}
    (hnodup : (entries.map fieldName?).Nodup) {s t : Schedule Float} :
    entries.foldlM setEntry s = some t ↔ Overrides entries s t := by
  induction entries generalizing s with
  | nil =>
    constructor
    · intro h
      obtain rfl := Option.some.inj h
      exact ⟨by simp, .nil, fun _ _ => rfl⟩
    · intro h
      exact congrArg some (eq_of_get fun field => (h.keeps field List.not_mem_nil).symm)
  | cons entry entries ih =>
    obtain ⟨hnot, hrest⟩ := List.nodup_cons.mp hnodup
    rw [List.foldlM_cons, Option.bind_eq_bind, Option.bind_eq_some_iff]
    constructor
    · rintro ⟨u, hu, ht⟩
      obtain ⟨name, hname, hu⟩ := Option.bind_eq_some_iff.mp hu
      obtain ⟨field, rfl⟩ := exists_name_of_setField hu
      obtain ⟨hread, hothers⟩ := get_setField hu
      obtain ⟨hsets, -, hkeeps⟩ := (ih hrest).mp ht
      refine ⟨List.forall_mem_cons.mpr ⟨⟨field, hname, ?_⟩, hsets⟩, hnodup, fun other hother => ?_⟩
      · rw [hread, hkeeps field (hname ▸ hnot)]
      · obtain ⟨hne, hother⟩ := not_or.mp (mt List.mem_cons.mpr hother)
        rw [hkeeps other hother]
        refine hothers other fun heq => hne ?_
        rw [hname, heq]
    · intro h
      obtain ⟨field, hname, hread⟩ := h.sets entry List.mem_cons_self
      obtain ⟨u, hu⟩ := exists_setField hread s
      obtain ⟨hset, hothers⟩ := get_setField hu
      refine ⟨u, Option.bind_eq_some_iff.mpr ⟨field.name, hname, hu⟩, (ih hrest).mpr
        ⟨fun e he => h.sets e (List.mem_cons_of_mem _ he), hrest, fun other hother => ?_⟩⟩
      by_cases heq : other = field
      · subst heq
        exact Option.some.inj (hread.symm.trans hset)
      · rw [hothers other heq]
        refine h.keeps other fun hmem => ?_
        rcases List.mem_cons.mp hmem with hmem | hmem
        · exact heq (name_injective (Option.some.inj (hmem.trans hname)))
        · exact hother hmem

/-- The schedules that parameters stand for, whatever their tags. -/
inductive StandsFor (v : Value) : Schedule Float → Prop
  | standard : v.untagged = .null → StandsFor v .standard
  | overridden {entries : List (Value × Value)} {s : Schedule Float} :
    v.untagged = .mapping entries → Overrides entries .standard s → StandsFor v s

theorem scheduleOf?_eq_some_iff {v : Value} {s : Schedule Float} :
    scheduleOf? v = some s ↔ StandsFor v s := by
  unfold scheduleOf?
  constructor
  · intro h
    split at h
    next hv =>
      obtain rfl := Option.some.inj h
      exact .standard hv
    next entries hv =>
      split_ifs at h with hnodup
      exact .overridden hv ((foldlM_setEntry_eq_some_iff hnodup).mp h)
    next => cases h
  · rintro (hv | ⟨hv, h⟩)
    · rw [hv]
    · rw [hv]
      simp only [h.once, ↓reduceIte]
      exact (foldlM_setEntry_eq_some_iff h.once).mpr h

theorem scheduleOf?_eq_none_iff {v : Value} : scheduleOf? v = none ↔ ∀ s, ¬ StandsFor v s := by
  simp only [Option.eq_none_iff_forall_ne_some, ne_eq, scheduleOf?_eq_some_iff]

theorem hasEntries_iff {v : Value} :
    hasEntries v = true ↔ ∃ entry entries, v.untagged = .mapping (entry :: entries) := by
  unfold hasEntries
  split
  next entry entries hv => exact iff_of_true rfl ⟨entry, entries, hv⟩
  next hv =>
    refine iff_of_false Bool.false_ne_true ?_
    rintro ⟨entry, entries, h⟩
    exact hv entry entries h

namespace SolverSection

/-- The schedule with which a solver is created. -/
inductive Admits (s : SolverSection) : Schedule Float → Prop
  | search : s.strategy = .bruteForce → (∀ entries, s.params.untagged = .mapping entries →
    entries = []) → Admits s .standard
  | anneal {schedule : Schedule Float} : s.strategy = .anneal → StandsFor s.params schedule →
    schedule.validate = .ok () → Admits s schedule

/-- What is reported of a solver that is not created. -/
inductive Rejects (s : SolverSection) : ParamFault → Prop
  | unexpected {entry : Value × Value} {entries : List (Value × Value)} :
    s.strategy = .bruteForce → s.params.untagged = .mapping (entry :: entries) →
    Rejects s (.unexpected s.name)
  | unreadable : s.strategy = .anneal → (∀ schedule, ¬ StandsFor s.params schedule) →
    Rejects s (.unreadable s.name)
  | invalid {schedule : Schedule Float} {e : SolverError} : s.strategy = .anneal →
    StandsFor s.params schedule → schedule.validate = .error e → Rejects s (.invalid s.name e)

/-- Parameters of the kind of a solver: an exhaustive search takes none, and those of an annealer
are none or stand for an accepted schedule. -/
def TakesItsParams (s : SolverSection) : Prop :=
  match s.strategy with
  | .bruteForce => s.params.untagged = .null ∨ s.params.untagged = .mapping []
  | .anneal => s.params.untagged = .null ∨
    ∃ schedule, StandsFor s.params schedule ∧ schedule.validate = .ok ()

theorem TakesItsParams.exists_admits {s : SolverSection} (h : s.TakesItsParams) :
    ∃ schedule, s.Admits schedule := by
  unfold TakesItsParams at h
  split at h
  next hstrategy =>
    refine ⟨.standard, .search hstrategy fun entries hv => ?_⟩
    rcases h with h | h
    · exact nomatch hv.symm.trans h
    · exact Value.mapping.inj (hv.symm.trans h)
  next hstrategy =>
    rcases h with h | ⟨schedule, hread, hvalid⟩
    · exact ⟨.standard, .anneal hstrategy (.standard h) Schedule.validate_standard⟩
    · exact ⟨schedule, .anneal hstrategy hread hvalid⟩

theorem Admits.takesItsParams {s : SolverSection} {schedule : Schedule Float}
    (h : s.Admits schedule) (hparams : s.strategy = .bruteForce → s.params.untagged = .null ∨
      ∃ entries, s.params.untagged = .mapping entries) : s.TakesItsParams := by
  unfold TakesItsParams
  cases h with
  | search hstrategy hnone =>
    rw [hstrategy]
    rcases hparams hstrategy with hv | ⟨entries, hv⟩
    · exact .inl hv
    · exact .inr (hnone entries hv ▸ hv)
  | anneal hstrategy hread hvalid =>
    rw [hstrategy]
    exact .inr ⟨schedule, hread, hvalid⟩

end SolverSection

namespace Blueprint

theorem readSchedule_eq_ok_iff {s : SolverSection} {schedule : Schedule Float} :
    readSchedule s = .ok schedule ↔ s.Admits schedule := by
  unfold readSchedule
  constructor
  · intro h
    split at h
    next hstrategy =>
      split_ifs at h with hentries
      obtain rfl := Except.ok.inj h
      refine .search hstrategy fun entries hv => ?_
      cases entries with
      | nil => rfl
      | cons entry entries => exact absurd (hasEntries_iff.mpr ⟨entry, entries, hv⟩) hentries
    next hstrategy =>
      split at h
      · cases h
      next hread =>
        split at h
        · cases h
        next hvalid =>
          obtain rfl := Except.ok.inj h
          exact .anneal hstrategy (scheduleOf?_eq_some_iff.mp hread) hvalid
  · rintro (⟨hstrategy, hnone⟩ | ⟨hstrategy, hread, hvalid⟩)
    · have hentries : ¬ hasEntries s.params = true := by
        intro h
        obtain ⟨entry, entries, hv⟩ := hasEntries_iff.mp h
        exact absurd (hnone _ hv) (List.cons_ne_nil entry entries)
      simp only [hstrategy, hentries, Bool.false_eq_true, ↓reduceIte]
    · simp only [hstrategy, scheduleOf?_eq_some_iff.mpr hread, hvalid]

theorem readSchedule_eq_error_iff {s : SolverSection} {fault : ParamFault} :
    readSchedule s = .error fault ↔ s.Rejects fault := by
  unfold readSchedule
  constructor
  · intro h
    split at h
    next hstrategy =>
      split_ifs at h with hentries
      obtain rfl := Except.error.inj h
      obtain ⟨entry, entries, hv⟩ := hasEntries_iff.mp hentries
      exact .unexpected hstrategy hv
    next hstrategy =>
      split at h
      next hread =>
        obtain rfl := Except.error.inj h
        exact .unreadable hstrategy (scheduleOf?_eq_none_iff.mp hread)
      next hread =>
        split at h
        next hinvalid =>
          obtain rfl := Except.error.inj h
          exact .invalid hstrategy (scheduleOf?_eq_some_iff.mp hread) hinvalid
        · cases h
  · rintro (⟨hstrategy, hv⟩ | ⟨hstrategy, hnone⟩ | ⟨hstrategy, hread, hinvalid⟩)
    · simp only [hstrategy, hasEntries_iff.mpr ⟨_, _, hv⟩, ↓reduceIte]
    · simp only [hstrategy, scheduleOf?_eq_none_iff.mpr hnone]
    · simp only [hstrategy, scheduleOf?_eq_some_iff.mpr hread, hinvalid]

theorem ofSection_eq_ok_iff {s : SolverSection} {b : Blueprint Float} :
    ofSection s = .ok b ↔ b.name = s.name ∧ b.strategy = s.strategy ∧ s.Admits b.schedule := by
  rw [← readSchedule_eq_ok_iff]
  constructor
  · intro h
    obtain ⟨schedule, hread, h⟩ := Result.bind_eq_ok_iff.mp h
    obtain rfl := Except.ok.inj h
    exact ⟨rfl, rfl, hread⟩
  · rintro ⟨hname, hstrategy, hread⟩
    cases b
    subst hname hstrategy
    exact Result.bind_eq_ok_iff.mpr ⟨_, hread, rfl⟩

theorem exists_ofSection_iff {s : SolverSection} :
    (∃ b, ofSection s = .ok b) ↔ ∃ schedule, s.Admits schedule := by
  constructor
  · rintro ⟨b, hb⟩
    exact ⟨b.schedule, (ofSection_eq_ok_iff.mp hb).2.2⟩
  · rintro ⟨schedule, h⟩
    exact ⟨⟨s.name, s.strategy, schedule⟩, ofSection_eq_ok_iff.mpr ⟨rfl, rfl, h⟩⟩

theorem ofSection_eq_error_iff {s : SolverSection} {fault : ParamFault} :
    ofSection s = .error fault ↔ s.Rejects fault := by
  rw [← readSchedule_eq_error_iff, ofSection]
  cases readSchedule s with
  | error e => simp [bind, Except.bind]
  | ok schedule => simp [bind, Except.bind, pure, Except.pure]

/-- Solvers are created exactly if each of them admits a schedule, in their order and with their
names and strategies; if one of them does not, the first such one is reported. As long as the
parameters of exhaustive searches are null or a mapping, creation succeeds exactly if every solver
takes its parameters. -/
theorem ofSections_follows_parameters (solvers : List SolverSection) :
    (∀ blueprints, ofSections solvers = .ok blueprints ↔
      List.Forall₂ (fun s b => b.name = s.name ∧ b.strategy = s.strategy ∧ s.Admits b.schedule)
        solvers blueprints) ∧
    (∀ fault, ofSections solvers = .error fault ↔ ∃ before s after,
      solvers = before ++ s :: after ∧ (∀ t ∈ before, ∃ schedule, t.Admits schedule) ∧
        s.Rejects fault) ∧
    ((∀ s ∈ solvers, s.TakesItsParams) → ∃ blueprints, ofSections solvers = .ok blueprints) ∧
    ((∀ s ∈ solvers, s.strategy = .bruteForce → s.params.untagged = .null ∨
        ∃ entries, s.params.untagged = .mapping entries) →
      (∃ blueprints, ofSections solvers = .ok blueprints) → ∀ s ∈ solvers, s.TakesItsParams) := by
  refine ⟨fun blueprints => ?_, fun fault => ?_, fun h => ?_, fun hparams h s hs => ?_⟩
  · simp only [ofSections, Result.mapM_eq_ok_iff, ofSection_eq_ok_iff]
  · simp only [ofSections, Result.mapM_eq_error_iff, ofSection_eq_error_iff, exists_ofSection_iff]
  · have hall (s : SolverSection) (hs : s ∈ solvers) : ∃ b, ofSection s = .ok b ∧ True := by
      obtain ⟨b, hb⟩ := exists_ofSection_iff.mpr (h s hs).exists_admits
      exact ⟨b, hb, trivial⟩
    obtain ⟨blueprints, hblueprints, -⟩ := Result.exists_mapM_eq_ok hall
    exact ⟨blueprints, hblueprints⟩
  · obtain ⟨blueprints, hblueprints⟩ := h
    obtain ⟨schedule, hadmits⟩ :=
      exists_ofSection_iff.mp (Result.exists_of_mapM_eq_ok hblueprints s hs)
    exact hadmits.takesItsParams (hparams s hs)

/-- An exhaustive search without parameters and an annealer that overrides its ratio; then an
annealer with a ratio above one. -/
theorem ofSections_follows_parameters_of_overrides :
    let exact : SolverSection := ⟨"exact", .bruteForce, .null⟩
    let slow : SolverSection := ⟨"slow", .anneal, .mapping [(.string "tau", .float 0.9)]⟩
    let wild : SolverSection := ⟨"wild", .anneal, .mapping [(.string "tau", .float 1.5)]⟩
    (∀ s ∈ [exact, slow], s.TakesItsParams) ∧
    (∃ blueprints, ofSections [exact, slow] = .ok blueprints ∧
      blueprints.map (·.name) = ["exact", "slow"]) ∧
    slow.Admits { (.standard : Schedule Float) with tau := 0.9 } ∧
    ∃ before s after, [exact, slow, wild, exact] = before ++ s :: after ∧
      s.Rejects (.invalid "wild" (.invalidSchedule .ratioOutside)) := by
  intro exact slow wild
  obtain ⟨-, -, -, htakes⟩ := ofSections_follows_parameters [exact, slow]
  obtain ⟨-, hfault, -⟩ := ofSections_follows_parameters [exact, slow, wild, exact]
  obtain ⟨hslow, -⟩ := ofSections_follows_parameters [slow]
  refine ⟨htakes ?_ ⟨_, rfl⟩, ⟨_, rfl, rfl⟩, ?_, ?_⟩
  · intro s hs hstrategy
    rcases List.mem_pair.mp hs with rfl | rfl
    · exact .inl rfl
    · cases hstrategy
  · obtain ⟨⟨-, -, hadmits⟩, -⟩ := List.forall₂_cons.mp ((hslow _).mp rfl)
    exact hadmits
  · obtain ⟨before, s, after, heq, -, hrejects⟩ := (hfault _).mp rfl
    exact ⟨before, s, after, heq, hrejects⟩

/-- Parameters that are neither null nor a mapping are ignored by an exhaustive search. -/
theorem ofSections_of_number :
    let s : SolverSection := ⟨"exact", .bruteForce, .int 5⟩
    ofSections [s] = .ok [⟨"exact", .bruteForce, .standard⟩] ∧ ¬ s.TakesItsParams := by
  refine ⟨rfl, ?_⟩
  rintro (h | h) <;> cases h

end Blueprint

end Qubo.Benchmark

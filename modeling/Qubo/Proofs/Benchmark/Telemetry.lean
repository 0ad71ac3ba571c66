import Mathlib
import Qubo.CommandLine.Program
import Qubo.Files.World
import Qubo.Proofs.Benchmark.Events
import Qubo.Proofs.Benchmark.Execution
import Qubo.Proofs.Telemetry.Summary

/-! The log of a benchmark against its run: what the summary of the log counts is what was run, as
far as the level and the wish for details let it through. -/
namespace Qubo

namespace Text

theorem trim_eq_self {s : String} (h : ∀ ch ∈ s.toList, isBlank ch = false) : trim s = s := by
  have hkept (cs : List Char) (hcs : ∀ ch ∈ cs, isBlank ch = false) :
      cs.dropWhile isBlank = cs := by
    cases cs with
    | nil => rfl
    | cons ch cs => rw [List.dropWhile_cons, hcs ch List.mem_cons_self, if_neg Bool.false_ne_true]
  rw [trim, trimChars, hkept _ h, hkept _ fun ch hch => h ch (List.mem_reverse.mp hch),
    List.reverse_reverse, String.ofList_toList]

end Text

/-- The levels at which the records of a run pass. -/
theorem Level.passes_info_iff {least : Level} :
    least.passes .info = true ↔ least ∈ [.trace, .debug, .info] := by
  cases least <;> decide

namespace Benchmark
open Files Promise

section Names

/-- A name that may be given to a solver. -/
def IsName (name : String) : Prop :=
  Text.isBlankText name = false ∧ ∀ ch ∈ name.toList, isNameChar ch = true

theorem isName_of_checkSolvers {before : List String} {solvers : List SolverSection}
    (h : (checkSolvers before solvers).2 = .ok ()) : ∀ s ∈ solvers, IsName s.name := by
  induction solvers generalizing before with
  | nil => simp
  | cons s solvers ih =>
    rw [checkSolvers] at h
    cases hname : checkName before s.name with
    | error v =>
      rw [hname] at h
      cases h
    | ok u =>
      rw [hname] at h
      refine List.forall_mem_cons.mpr ⟨?_, ih h⟩
      unfold checkName at hname
      split_ifs at hname with hblank hchars
      exact ⟨by simpa using hblank, by simpa using hchars⟩

theorem isBlank_of_isNameChar {ch : Char} (h : isNameChar ch = true) : Text.isBlank ch = false := by
  have hall : nameAlphabet.all (fun ch => !Text.isBlank ch) = true := by decide +kernel
  simpa using List.all_eq_true.mp hall ch (isNameChar_iff.mp h)

/-- The names of solvers are taken for labels as they are. -/
theorem IsName.labelOf {name : String} (h : IsName name) :
    Telemetry.labelOf (some (.string name)) = name := by
  rw [Telemetry.labelOf, h.1, if_neg Bool.false_ne_true]
  exact Text.trim_eq_self fun ch hch => isBlank_of_isNameChar (h.2 ch hch)

end Names

section Records

/-- The group of the events that end a run. -/
def groupOf : Strategy → Telemetry.Group
  | .anneal => .anneal
  | .bruteForce => .search

def RunEvent.group? {α : Type} : RunEvent α → Option Telemetry.Group
  | .trial _ => some .trial
  | .solver e => e.solvedBy?.map groupOf

/-- Whether the records of a group pass a filter: those of solvers only with their details. -/
def lets (f : Log.Filter) : Telemetry.Group → Bool
  | .trial => f.least.passes .info
  | .anneal | .search => f.least.passes .info && f.solverDetails

theorem ofTarget?_record (e : RunEvent Float) :
    Telemetry.Group.ofTarget? e.record.target = e.group? := by
  cases e with
  | trial row => rfl
  | solver e => cases e <;> rfl

theorem keeps_record (f : Log.Filter) {e : RunEvent Float} {g : Telemetry.Group}
    (h : e.group? = some g) : f.keeps e.record = lets f g := by
  cases e with
  | trial row =>
    obtain rfl := Option.some.inj h
    simp [lets, RunEvent.record, Row.record, Log.Filter.keeps, Log.solverTargets, Log.trialTarget,
      Log.annealTarget, Log.searchTarget, Log.factoryTarget]
  | solver e =>
    cases e with
    | created => cases h
    | searched =>
      obtain rfl := Option.some.inj h
      simp [lets, groupOf, RunEvent.record, Log.ofSolverEvent, Log.Filter.keeps, Log.solverTargets]
    | annealed =>
      obtain rfl := Option.some.inj h
      simp [lets, groupOf, RunEvent.record, Log.ofSolverEvent, Log.Filter.keeps, Log.solverTargets]

/-- The records of a group that pass a filter: those of all its events, or none. -/
def passed (f : Log.Filter) (events : List (RunEvent Float)) (g : Telemetry.Group) :
    List Log.Record :=
  if lets f g then (events.filter fun e => e.group? = some g).map RunEvent.record else []

variable (f : Log.Filter) (events : List (RunEvent Float))

theorem logged_eq_map {c : Config} (h : c.logging.enabled = true) :
    logged c events = events.map RunEvent.record := by
  rw [logged, ← List.filterMap_eq_map]
  refine List.filterMap_congr fun e _ => ?_
  cases e <;> simp [h]

theorem filter_records (g : Telemetry.Group) :
    ((events.map RunEvent.record).filter fun r => f.keeps r && r.target == g.target) =
      passed f events g := by
  have htest (e : RunEvent Float) : (f.keeps e.record && e.record.target == g.target) =
      (lets f g && decide (e.group? = some g)) := by
    have htarget : e.record.target = g.target ↔ e.group? = some g := by
      rw [← Telemetry.ofTarget?_eq_some_iff, ofTarget?_record]
    by_cases h : e.group? = some g
    · simp [keeps_record f h, h, htarget.mpr h]
    · simp [h, mt htarget.mp h]
  rw [List.filter_map, Function.comp_def, funext htest, passed]
  cases lets f g <;> simp

theorem filter_group_trial : (events.filter fun e => e.group? = some .trial).map RunEvent.record =
    (events.filterMap RunEvent.row?).map Row.record := by
  induction events with
  | nil => rfl
  | cons e events ih =>
    cases e with
    | trial row => exact congrArg (row.record :: ·) ih
    | solver e => cases e <;> exact ih

theorem length_filter_group (strategy : Strategy) :
    (events.filter fun e => e.group? = some (groupOf strategy)).length =
      (events.filterMap RunEvent.solverEvent?).countP fun e => e.solvedBy? = some strategy := by
  have hgroup (e : SolverEvent Float) : (RunEvent.solver e).group? = some (groupOf strategy) ↔
      e.solvedBy? = some strategy := by
    cases e <;> cases strategy <;> simp [RunEvent.group?, SolverEvent.solvedBy?, groupOf]
  induction events with
  | nil => rfl
  | cons e events ih =>
    cases e with
    | trial row => cases strategy <;> exact ih
    | solver e =>
      have hmap : (RunEvent.solver e :: events).filterMap RunEvent.solverEvent? =
          e :: events.filterMap RunEvent.solverEvent? := rfl
      rw [List.filter_cons, hmap, List.countP_cons, ← ih]
      simp only [hgroup]
      split_ifs <;> simp

end Records

section Words
variable {c : Config} {bs : List (Blueprint Float)}

theorem Config.Ready.steps_lt (hc : c.Ready bs) {r : Round Float} {b : Blueprint Float}
    (hb : b ∈ bs) {x : SolverResult Float} (hx : Yields c.problem r b x) :
    x.steps < UInt64.size := by
  obtain ⟨outcome, elapsedMs, houtcome, rfl⟩ := hx
  refine lt_of_le_of_lt ?_ (Schedule.stepCount_lt (hc.schedules b hb))
  unfold solveRound at houtcome
  split at houtcome
  · cases houtcome
  · exact Solver.steps_of_solve houtcome

theorem hasWords_row (hc : c.Ready bs) {rs : List (Round Float)} {rows : List (Row Float)}
    (h : Written c bs rs rows) : ∀ row ∈ rows, row.record.HasWords := by
  induction h with
  | nil => simp
  | @cons r rs t rows ht _ ih =>
    intro row hrow
    rcases List.mem_append.mp hrow with hrow | hrow
    · obtain ⟨x, hx, rfl⟩ := List.mem_map.mp hrow
      obtain ⟨b, hb, hyields⟩ := Result.exists_mem_of_forall₂ ht.results x hx
      have hsteps := hc.steps_lt hb hyields
      simpa [Log.Record.HasWords, Row.record, Log.Value.IsWord, Progress.row] using hsteps
    · exact ih row hrow

/-- Every number that a run leaves in the log is a word. -/
theorem hasWords_records (hc : c.Ready bs) (hwords : c.HasWords bs) {rows : List (Row Float)}
    {events : List (RunEvent Float)} (hwritten : Written c bs (rounds c.problem) rows)
    (hrecorded : Recorded c bs (rounds c.problem) rows events) :
    ∀ r ∈ CommandLine.runRecord c :: events.map RunEvent.record, r.HasWords := by
  refine List.forall_mem_cons.mpr ⟨?_, fun r hr => ?_⟩
  · simp [CommandLine.runRecord, Log.Record.HasWords, Log.Value.IsWord]
  · obtain ⟨e, he, rfl⟩ := List.mem_map.mp hr
    cases e with
    | trial row =>
      refine hasWords_row hc hwritten row ?_
      rw [← hrecorded.trials]
      exact List.mem_filterMap.mpr ⟨_, he, rfl⟩
    | solver e =>
      have hmem : e ∈ events.filterMap RunEvent.solverEvent? := List.mem_filterMap.mpr ⟨_, he, rfl⟩
      rw [hrecorded.solvers] at hmem
      obtain ⟨round, hround, hmem⟩ := List.mem_flatMap.mp hmem
      obtain ⟨b, hb, hmem⟩ := List.mem_flatMap.mp hmem
      obtain ⟨created, ended, hevents, -, -, hcreated, hended⟩ := hc.exists_events hwords hround hb
      rw [hevents] at hmem
      rcases List.mem_pair.mp hmem with rfl | rfl
      · exact hcreated.record
      · exact hended.record

end Words

section Summary

/-- A summary that counts all that has been run: each trial of each solver under its name, and the
ends of all runs if details are wanted. -/
structure CountsRun (c : Config) (s : Telemetry.Summary Float) : Prop where
  trials : s.trials.count = c.problem.instances * c.problem.trials * c.solvers.length
  sorted : (s.trials.labels.map Prod.fst).Pairwise (· < ·)
  solvers : ∀ name n, (name, n) ∈ s.trials.labels ↔
    name ∈ c.solvers.map (·.name) ∧ n = c.problem.instances * c.problem.trials
  anneals : s.anneal.count = if c.logging.solverDetails then
    c.problem.instances * c.problem.trials * c.solvers.countP (·.strategy = .anneal) else 0
  searches : s.search.count = if c.logging.solverDetails then
    c.problem.instances * c.problem.trials * c.solvers.countP (·.strategy = .bruteForce) else 0

/-- A summary in which nothing is counted. -/
def CountsNothing (s : Telemetry.Summary Float) : Prop :=
  s.trials.count = 0 ∧ s.anneal.count = 0 ∧ s.search.count = 0

variable {c : Config} {bs : List (Blueprint Float)} {rows : List (Row Float)}
  {events : List (RunEvent Float)}

/-- A summary of the events of a run that pass a filter. -/
def Summarises (f : Log.Filter) (events : List (RunEvent Float)) (s : Telemetry.Summary Float) :
    Prop :=
  ∀ g, s.group g = .ofEvents ((passed f events g).map (Telemetry.eventOf g))

theorem exists_summary (hc : c.Ready bs) (hwords : c.HasWords bs)
    (henabled : c.logging.enabled = true) (hwritten : Written c bs (rounds c.problem) rows)
    (hrecorded : Recorded c bs (rounds c.problem) rows events) (f : Log.Filter) :
    ∃ s, Telemetry.Summary.ofLines (Telemetry.linesOf
        (Log.lines f (CommandLine.runRecord c :: logged c events)).toUTF8) = .ok s ∧
      Summarises f events s := by
  rw [logged_eq_map events henabled]
  have hall := hasWords_records hc hwords hwritten hrecorded
  refine ⟨_, Telemetry.ofLines_lines f hall, fun g => ?_⟩
  have hrun : (CommandLine.runRecord c).target ≠ g.target := by
    cases g <;> simp [CommandLine.runRecord, Log.runTarget, Telemetry.Group.target,
      Log.annealTarget, Log.searchTarget, Log.trialTarget]
  rw [Telemetry.Summary.group_ofEvents, Telemetry.filter_events,
    List.filter_cons_of_neg (by simp [hrun]), filter_records]

theorem label_trial (row : Row Float) : (Telemetry.eventOf .trial row.record).label =
    Telemetry.labelOf (some (.string row.result.solver)) := by
  simp [Telemetry.eventOf, Row.record, Telemetry.Group.labelField, Json.field?, Log.Value.toJson]

theorem countsRun (hc : c.Ready bs) (hwords : c.HasWords bs)
    (hwritten : Written c bs (rounds c.problem) rows)
    (hrecorded : Recorded c bs (rounds c.problem) rows events) {f : Log.Filter}
    (hlevel : f.least.passes .info = true) (hdetails : f.solverDetails = c.logging.solverDetails)
    {s : Telemetry.Summary Float} (hs : Summarises f events s) : CountsRun c s := by
  have hcomplete := hwritten.isComplete hc.toEquipped
  obtain ⟨-, -, hsolvers, hproblem, -⟩ := check_eq_ok_iff.mp hc.accepted
  obtain ⟨-, -, -, hinstances, htrials, -⟩ := checkProblem_eq_ok_iff.mp hproblem
  have hevents : s.trials = .ofEvents ((rows.map Row.record).map (Telemetry.eventOf .trial)) := by
    have htrial := hs .trial
    rwa [passed, lets, if_pos hlevel, filter_group_trial, hrecorded.trials] at htrial
  have hnames (row : Row Float) (hrow : row ∈ rows) : IsName row.result.solver := by
    have hmem : row.place ∈ c.places := hcomplete.places ▸ List.mem_map_of_mem hrow
    obtain ⟨-, hmem⟩ := List.mem_product.mp hmem
    obtain ⟨solver, hsolver, hname⟩ := List.mem_map.mp (List.mem_product.mp hmem).2
    exact hname ▸ isName_of_checkSolvers hsolvers solver hsolver
  have hlabels : ((rows.map Row.record).map (Telemetry.eventOf .trial)).map (·.label) =
      rows.map (·.result.solver) := by
    rw [List.map_map, List.map_map]
    exact List.map_congr_left fun row hrow => (label_trial row).trans (hnames row hrow).labelOf
  have hended (strategy : Strategy) : (s.group (groupOf strategy)).count =
      if c.logging.solverDetails then
        c.problem.instances * c.problem.trials * c.solvers.countP (·.strategy = strategy)
      else 0 := by
    have hlets : lets f (groupOf strategy) = c.logging.solverDetails := by
      cases strategy <;> simp [lets, groupOf, hlevel, hdetails]
    have hstrategies : bs.countP (·.strategy = strategy) =
        c.solvers.countP (·.strategy = strategy) := by
      have hmap := congrArg (List.countP fun x : String × Strategy => x.2 = strategy) hc.solvers
      simpa [List.countP_map, Function.comp_def] using hmap
    rw [hs, Telemetry.GroupSummary.count_ofEvents, List.length_map, passed, hlets]
    split_ifs
    · rw [List.length_map, length_filter_group, hrecorded.solvers,
        hc.countP_events hwords, hstrategies]
    · rfl
  constructor
  · rw [hevents, Telemetry.GroupSummary.count_ofEvents, List.length_map, List.length_map,
      hcomplete.count]
  · exact hevents ▸ (Telemetry.GroupSummary.orderly_ofEvents _).sorted
  · intro name n
    rw [hevents, Telemetry.GroupSummary.mem_labels_ofEvents, hlabels]
    by_cases hname : name ∈ c.solvers.map (·.name)
    · rw [hwritten.count_solver hc hname]
      exact ⟨fun h => ⟨hname, h.2⟩, fun h => ⟨h.2 ▸ Nat.mul_pos hinstances htrials, h.2⟩⟩
    · have hnone : (rows.map (·.result.solver)).count name = 0 := by
        refine List.count_eq_zero_of_not_mem fun hmem => hname ?_
        obtain ⟨row, hrow, rfl⟩ := List.mem_map.mp hmem
        have hplace : row.place ∈ c.places := hcomplete.places ▸ List.mem_map_of_mem hrow
        exact (List.mem_product.mp (List.mem_product.mp hplace).2).2
      rw [hnone]
      refine ⟨?_, fun h => absurd h.1 hname⟩
      rintro ⟨hpos, rfl⟩
      exact absurd hpos (lt_irrefl 0)
  · exact hended .anneal
  · exact hended .bruteForce

/-- Where no record of a run passes, nothing is counted. -/
theorem countsNothing {f : Log.Filter} (hlevel : f.least.passes .info = false)
    {s : Telemetry.Summary Float} (hs : Summarises f events s) : CountsNothing s := by
  have hnone (g : Telemetry.Group) : (s.group g).count = 0 := by
    have hlets : lets f g = false := by cases g <;> simp [lets, hlevel]
    rw [hs, passed, hlets]
    rfl
  exact ⟨hnone .trial, hnone .anneal, hnone .search⟩

end Summary

theorem CountsRun.of_check {c : Config} (hc : c.check.result = .ok ()) {s : Telemetry.Summary Float}
    (h : CountsRun c.check.config s) : CountsRun c s := by
  have hproblem : c.check.config.problem = c.problem := by rw [config_check_eq hc]
  have hdetails : c.check.config.logging.solverDetails = c.logging.solverDetails := by
    rw [config_check_eq hc, LogSection.solverDetails_settled]
  have hnames : c.check.config.solvers.map (·.name) = c.solvers.map (·.name) := by
    rw [solvers_check hc, List.map_map]
    exact List.map_congr_left fun s _ => s.name_settled
  have hcount (strategy : Strategy) : c.check.config.solvers.countP (·.strategy = strategy) =
      c.solvers.countP (·.strategy = strategy) := by
    simp [solvers_check hc, List.countP_map, Function.comp_def]
  constructor
  · rw [h.trials, hproblem, solvers_check hc, List.length_map]
  · exact h.sorted
  · intro name n
    rw [h.solvers, hnames, hproblem]
  · rw [h.anneals, hproblem, hdetails, hcount]
  · rw [h.searches, hproblem, hdetails, hcount]

section Hosted
variable {σ : Type} [Host (StateM σ)] (D : Disk σ) {c : Config} {bs : List (Blueprint Float)}

def Config.telemetrySummaryPaths (c : Config) : List String :=
  [Path.join (directoryOf c.telemetryPath) "telemetry_summary.json",
    Path.join (directoryOf c.telemetryPath) "telemetry_summary.md"]

/-- A disk on which a benchmark finds its directories and can write its files, and neither its rows
nor its summary are written over its log. -/
structure Config.Served (c : Config) (D : Disk σ) : Prop where
  directories : ∀ path ∈ directoryOf c.outputPaths.summary :: c.directories, D.Makeable path
  files : ∀ path ∈ c.outputPaths.rows :: c.outputPaths.summary :: c.telemetryPath ::
    c.telemetrySummaryPaths, D.Writable path
  rows : D.Apart c.outputPaths.rows c.telemetryPath
  summary : D.Apart c.outputPaths.summary c.telemetryPath

variable {D}

omit [Host (StateM σ)] in
theorem onFiles_ensures {ε β : Type} {I J : σ → Prop} {operation : StateM σ (Except Fault β)}
    {x : β} (wrap : Fault → ε) (h : Ensures I operation fun r s => r = .ok x ∧ J s) :
    EnsuresOk I (onFiles wrap operation) fun v s => v = x ∧ J s := by
  refine Ensures.bind h ?_
  rintro _ s ⟨rfl, hs⟩
  exact ⟨x, rfl, rfl, hs⟩

theorem Config.Served.startLog (h : c.Served D) :
    EnsuresOk D.Sound (CommandLine.startLog c : ExceptT CommandLine.Failure (StateM σ) Unit)
      fun v s => v = () ∧ D.Holds c.telemetryPath ByteArray.empty s := by
  have hmade := D.makeDirectories_ensures (h.directories (directoryOf c.outputPaths.summary)
    (by simp))
  have hwritten := D.write_ensures (h.files c.telemetryPath (by simp)) ""
  exact (onFiles_ensures _ hmade).bind fun _ => EnsuresOk.of_and fun _ => onFiles_ensures _ hwritten

/-- A run writes to other files than its log. -/
theorem Config.Served.serves (h : c.Served D) (content : ByteArray) :
    Serves (Promise.keeping (D.Holds c.telemetryPath content)) (· ∈ c.directories) c.Writes := by
  refine D.serves (fun other hother => h.directories other (List.mem_cons_of_mem _ hother)) ?_
  intro other text hwrites
  cases hwrites with
  | start => exact ⟨h.files _ (by simp), h.rows⟩
  | rows => exact ⟨h.files _ (by simp), h.rows⟩
  | summary => exact ⟨h.files _ (by simp), h.summary⟩

theorem Config.Served.perform (h : c.Served D) (hbs : Blueprint.ofSections c.solvers = .ok bs)
    (hc : c.Ready bs) (content : ByteArray) :
    Ensures (D.Holds c.telemetryPath content) (CommandLine.perform false c : StateM σ _)
      fun r s => (∃ e : Executed, e.Completes c bs ∧
        r = (e.result.map some |>.mapError .benchmark, e.records)) ∧
          D.Holds c.telemetryPath content s := by
  have hexecute : Ensures (D.Holds c.telemetryPath content) (execute c bs : StateM σ Executed)
      fun e s => e.Completes c bs ∧ D.Holds c.telemetryPath content s :=
    hc.execute_gives (Promise.keeping _) (h.serves content)
  unfold CommandLine.perform
  rw [hbs]
  refine hexecute.bind ?_
  rintro e s ⟨he, hs⟩
  exact ⟨⟨e, he, rfl⟩, hs⟩

/-- A run with a log ends with the report of all rows, and the log holds what passes of its
records. -/
theorem Config.Served.performLogged (h : c.Served D) (henabled : c.logging.enabled = true)
    (hbs : Blueprint.ofSections c.solvers = .ok bs) (hc : c.Ready bs) :
    EnsuresOk D.Sound
      (CommandLine.performLogged false c : ExceptT CommandLine.Failure (StateM σ) _)
      fun v s => ∃ e : Executed, e.Completes c bs ∧
        v = some (.ofRun c bs.length
          (c.problem.instances * c.problem.trials * c.solvers.length)) ∧
        D.Holds c.telemetryPath (Log.lines (CommandLine.logFilter c)
          (CommandLine.runRecord c :: e.records)).toUTF8 s := by
  unfold CommandLine.performLogged
  simp only [henabled, if_true]
  refine h.startLog.bind fun _ => EnsuresOk.of_and fun _ => ?_
  refine (h.perform hbs hc _).lift.bind fun r => EnsuresOk.of_and ?_
  rintro ⟨e, he, rfl⟩
  refine (D.append_ensures (h.files _ (by simp)) _).lift.discard.bind fun _ => ?_
  rw [he.result]
  refine .pure ?_
  rintro s ⟨-, -, hs⟩
  rw [ByteArray.empty_append] at hs
  exact ⟨e, he, rfl, hs⟩

theorem readTelemetry_ensures {path : String} {log : ByteArray} {s : Telemetry.Summary Float}
    (hs : Telemetry.Summary.ofLines (Telemetry.linesOf log) = .ok s) :
    EnsuresOk (D.Holds path log) (readTelemetry path : ExceptT TelemetryFailure (StateM σ) _)
      fun v st => v = s ∧ D.Holds path log st := by
  refine D.isThere_ensures.lift.bind fun _ => EnsuresOk.of_and ?_
  rintro rfl
  refine (onFiles_ensures _ D.read_ensures).bind fun _ => EnsuresOk.of_and ?_
  rintro rfl
  rw [hs]
  exact EnsuresOk.pure fun _ hheld => ⟨rfl, hheld⟩

/-- The summary of a log that a disk holds. -/
theorem summariseLog_ensures {path summaryPath : String} {log : ByteArray}
    {s : Telemetry.Summary Float}
    (hs : Telemetry.Summary.ofLines (Telemetry.linesOf log) = .ok s)
    (hjson : D.Writable (Path.join (directoryOf path) "telemetry_summary.json"))
    (hmarkdown : D.Writable (Path.join (directoryOf path) "telemetry_summary.md"))
    (hsummary : D.Writable summaryPath) :
    EnsuresOk (D.Holds path log)
      (summariseLog path summaryPath : ExceptT TelemetryFailure (StateM σ) _)
      fun v _ => ∃ x, v = some x ∧ x.summary = s := by
  refine D.isThere_ensures.lift.bind fun _ => EnsuresOk.of_and ?_
  rintro rfl
  refine (readTelemetry_ensures hs).bind fun _ => EnsuresOk.of_and ?_
  rintro rfl
  -- The log may be written over from here on.
  refine (onFiles_ensures _ ((D.write_sound hjson _).of_imp fun _ hs => hs.1)).bind fun _ =>
    EnsuresOk.of_and fun _ => ?_
  refine (onFiles_ensures _ (D.write_sound hmarkdown _)).bind fun _ =>
    EnsuresOk.of_and fun _ => ?_
  refine (onFiles_ensures _ (D.append_sound hsummary _)).bind fun _ =>
    EnsuresOk.of_and fun _ => ?_
  exact EnsuresOk.pure fun _ _ => ⟨_, rfl, rfl⟩

theorem report_summariseLog_ensures {report : Report} {path : String} {log : ByteArray}
    {s : Telemetry.Summary Float} (hpath : report.telemetryPath = some path)
    (hs : Telemetry.Summary.ofLines (Telemetry.linesOf log) = .ok s)
    (hjson : D.Writable (Path.join (directoryOf path) "telemetry_summary.json"))
    (hmarkdown : D.Writable (Path.join (directoryOf path) "telemetry_summary.md"))
    (hsummary : D.Writable report.summaryPath) :
    Ensures (D.Holds path log) (report.summariseLog : StateM σ _)
      fun r _ => ∃ x, r = .ok (some x) ∧ x.summary = s := by
  rw [Report.summariseLog, hpath]
  refine Ensures.bind (summariseLog_ensures hs hjson hmarkdown hsummary) fun r => ?_
  rintro st ⟨_, rfl, x, rfl, hx⟩
  exact ⟨x, rfl, hx⟩

/-- The words of a run that there is room for: schedules of exhaustive solvers ask for no slices. -/
theorem Config.HasRoom.hasWords (h : c.HasRoom bs) (hc : c.Equipped bs)
    (hbs : Blueprint.ofSections c.solvers = .ok bs) : c.HasWords bs where
  size := (hc.problem_hasRoom h).size_lt
  trotters b hb n hn := by
    obtain ⟨-, -, -, hproblem, -⟩ := check_eq_ok_iff.mp hc.accepted
    obtain ⟨-, hpos, -⟩ := checkProblem_eq_ok_iff.mp hproblem
    cases hstrategy : b.strategy with
    | bruteForce =>
      obtain ⟨s, -, hs⟩ := Result.exists_mem_of_mapM_eq_ok hbs b hb
      obtain ⟨schedule, hschedule, hs⟩ := Result.bind_eq_ok_iff.mp hs
      obtain rfl := Except.ok.inj hs
      have hstandard : schedule = .standard := by
        rw [Blueprint.readSchedule, show s.strategy = .bruteForce from hstrategy] at hschedule
        split_ifs at hschedule
        exact (Except.ok.inj hschedule).symm
      rw [hstandard] at hn
      cases hn
    | anneal =>
      have hslices := h.slices b hb hstrategy
      rw [hn, Option.getD_some] at hslices
      have hle := Nat.le_mul_of_pos_right n hpos
      have hfirst := hslices.first
      unfold Matrix.capacity at hfirst
      unfold UInt64.size
      omega

/-- What a log counts is what was run. Where an accepted benchmark with a log is carried out and
there is room for it, on a disk where neither its rows nor its summary go to the file of the log, it
ends with its report, and the summary of the log counts as many trials as rows were written, each
solver under its name as often as there were rounds, and with the wish for details the end of every
run of every solver; where only warnings pass it counts nothing. -/
theorem telemetry_counts_match {σ : Type} [Host (StateM σ)] {D : Disk σ} {c : Config}
    (hc : c.check.result = .ok ()) (henabled : c.logging.enabled = true)
    {bs : List (Blueprint Float)} (hbs : Blueprint.ofSections c.check.config.solvers = .ok bs)
    (hroom : c.check.config.HasRoom bs) (hserved : c.check.config.Served D) {s : σ}
    (hs : D.Sound s) :
    let level := c.check.config.logging.level?.getD .info
    let after := (CommandLine.performLogged false c.check.config :
      ExceptT CommandLine.Failure (StateM σ) (Option Report)).run s
    ∃ report x, after.1 = .ok (some report) ∧
      ((report.summariseLog : StateM σ _) after.2).1 = .ok (some x) ∧
      (level ∈ [.trace, .debug, .info] →
        x.summary.trials.count = report.rows.toNat ∧ CountsRun c x.summary) ∧
      (level ∈ [.warn, .error] → CountsNothing x.summary) := by
  intro level after
  have hequipped := equipped_of_ofSections (check_config_check hc) hbs
  have hready : c.check.config.Ready bs :=
    ⟨hequipped, fun _ => (hequipped.problem_hasRoom hroom).size_lt⟩
  have hwords := hroom.hasWords hequipped hbs
  have hlogging : c.check.config.logging = c.logging.settled := by rw [config_check_eq hc]
  have henabled' : c.check.config.logging.enabled = true := by
    rw [hlogging, LogSection.enabled_settled, henabled]
  obtain ⟨_, hrun, e, he, rfl, hlog⟩ := hserved.performLogged henabled' hbs hready s hs
  obtain ⟨rows, events, hwritten, hrecorded, hrecords⟩ := he.records
  obtain ⟨summary, hsummary, hgroups⟩ := exists_summary hready hwords henabled' hwritten hrecorded
    (CommandLine.logFilter c.check.config)
  rw [← hrecords] at hsummary
  have hpath (rows : ℕ) : (Report.ofRun c.check.config bs.length rows).telemetryPath =
      some c.check.config.telemetryPath := if_pos henabled'
  obtain ⟨x, hread, rfl⟩ := report_summariseLog_ensures (hpath _) hsummary
    (hserved.files _ (by simp [Config.telemetrySummaryPaths]))
    (hserved.files _ (by simp [Config.telemetrySummaryPaths]))
    (hserved.files _ (by simp [Report.ofRun])) _ hlog
  refine ⟨_, x, hrun, hread, fun hlevel => ?_, fun hlevel => countsNothing ?_ hgroups⟩
  · have hcounts : CountsRun c.check.config x.summary :=
      countsRun hready hwords hwritten hrecorded (Level.passes_info_iff.mpr hlevel) rfl hgroups
    exact ⟨hcounts.trials.trans (hroom.toNat_rows _).symm, hcounts.of_check hc⟩
  · have hnone : ∀ l ∈ [Level.warn, .error], l.passes .info = false := by decide
    exact hnone _ hlevel

/-- An exhaustive solver and an annealer on two instances, three trials each, logged in detail:
twelve trials, six for each solver. -/
theorem telemetry_counts_match_of_rivals :
    let c : Config := ⟨"rivals", ⟨.dense, 3, 0, some 7, 2, 3, .maximize⟩,
      [⟨"exhaustive", .bruteForce, .null⟩, ⟨"annealed", .anneal, .null⟩],
      ⟨"rows", "summary", "plots"⟩, ⟨some "exhaustive", 1⟩, ⟨true, "Debug", true⟩⟩
    let bs : List (Blueprint Float) :=
      [⟨"exhaustive", .bruteForce, .standard⟩, ⟨"annealed", .anneal, .standard⟩]
    c.check.result = .ok () ∧ Blueprint.ofSections c.check.config.solvers = .ok bs ∧
    c.check.config.HasRoom bs ∧ c.check.config.Served Shelf.disk ∧
    ∃ after report x, (CommandLine.performLogged false c.check.config :
      ExceptT CommandLine.Failure (StateM Shelf) (Option Report)).run .empty = after ∧
      after.1 = .ok (some report) ∧
      ((report.summariseLog : StateM Shelf _) after.2).1 = .ok (some x) ∧
      report.rows.toNat = 12 ∧ x.summary.trials.count = 12 ∧
      ("exhaustive", 6) ∈ x.summary.trials.labels ∧ ("annealed", 6) ∈ x.summary.trials.labels ∧
      x.summary.anneal.count = 6 ∧ x.summary.search.count = 6 := by
  intro c bs
  have hc : c.check.result = .ok () := by decide +kernel
  have hsections : Blueprint.ofSections c.check.config.solvers = .ok bs := by
    rw [solvers_check hc]
    rfl
  have hproblem : c.check.config.problem = c.problem := by rw [config_check_eq hc]
  have hroom : c.check.config.HasRoom bs := by
    refine Config.hasRoom_of_dense ?_ ?_ (by simp [bs, Schedule.standard]) ?_
    · rw [hproblem]
    · rw [hproblem]
      show 3 * 3 < Matrix.capacity
      decide
    · rw [hproblem, solvers_check hc]
      show 2 * (2 * 3 * 2) < Matrix.capacity
      decide
  have hserved : c.check.config.Served Shelf.disk := by
    constructor
    · exact fun _ _ => trivial
    · exact fun _ _ => trivial
    · show c.check.config.outputPaths.rows ≠ c.check.config.telemetryPath
      decide +kernel
    · show c.check.config.outputPaths.summary ≠ c.check.config.telemetryPath
      decide +kernel
  have hlevel : c.check.config.logging.level?.getD .info = .debug := by decide +kernel
  obtain ⟨report, x, hreport, hread, hcounts, -⟩ :=
    telemetry_counts_match hc rfl hsections hroom hserved (s := .empty) trivial
  rw [hlevel] at hcounts
  obtain ⟨hrows, hcounts⟩ := hcounts (by decide)
  have hsix (name : String) (hname : name ∈ c.solvers.map (·.name)) :
      (name, 6) ∈ x.summary.trials.labels := (hcounts.solvers name 6).mpr ⟨hname, rfl⟩
  have htwelve : x.summary.trials.count = 12 := hcounts.trials
  exact ⟨hc, hsections, hroom, hserved, _, report, x, rfl, hreport, hread, hrows.symm.trans htwelve,
    htwelve, hsix _ (by decide), hsix _ (by decide), hcounts.anneals, hcounts.searches⟩

/-- A summary that goes to the file of the log leaves no log that could be read: its first line is a
heading. -/
theorem summariseLog_of_overwritten_log :
    let c : Config := ⟨"alone", ⟨.dense, 1, 0, some 7, 1, 1, .minimize⟩,
      [⟨"exhaustive", .bruteForce, .null⟩],
      ⟨"out/rows.jsonl", "out/telemetry.jsonl", "out"⟩, ⟨some "exhaustive", 1⟩,
      ⟨true, "error", false⟩⟩
    let after := (CommandLine.performLogged false c.check.config :
      ExceptT CommandLine.Failure (StateM World) (Option Report)).run ⟨.empty, #[]⟩
    let report : Report :=
      ⟨1, 1, 1, 1, "out/rows.jsonl", "out/telemetry.jsonl", some "out/telemetry.jsonl"⟩
    c.check.result = .ok () ∧ c.logging.enabled = true ∧
    c.check.config.logging.level? = some .error ∧
    Blueprint.ofSections c.check.config.solvers = .ok [⟨"exhaustive", .bruteForce, .standard⟩] ∧
    after.1 = .ok (some report) ∧
    ((report.summariseLog : StateM World _) after.2).1.map (fun _ => ()) =
      .error (.telemetry .json) := by
  intro c after report
  refine ⟨by decide +kernel, rfl, by decide +kernel, ?_, by decide +kernel⟩
  rw [solvers_check (by decide +kernel)]
  rfl

end Hosted

end Benchmark

end Qubo

import Mathlib.Tactic
import Qubo.Benchmark.Execution
import Qubo.Files.World
import Qubo.Proofs.Exact
import Qubo.Proofs.Telemetry.Readings
import Qubo.Proofs.Telemetry.Summary

/-! Summaries as folds over the lines of a log: what they count and average. Over exact arithmetic
no order of the lines shows in them, and those of two logs make up that of one behind the other. -/
namespace Qubo.Telemetry

/-- The two measures of an event. -/
inductive Measure where
  | first
  | second
  deriving DecidableEq, Repr

def Group.field (g : Group) : Measure → String
  | .first => g.firstField
  | .second => g.secondField

def Event.measure {α : Type} (e : Event α) : Measure → Option α
  | .first => e.first
  | .second => e.second

/-- An event with its measures taken for other numbers. -/
def Event.map {α β : Type} (value : α → β) (e : Event α) : Event β :=
  ⟨e.group, e.first.map value, e.second.map value, e.label⟩

theorem Event.measure_map {α β : Type} (value : α → β) (e : Event α) (m : Measure) :
    (e.map value).measure m = (e.measure m).map value := by
  cases m <;> rfl

/-- The average of some values, of which there is none without a value. -/
def meanOf {α : Type} [Scalar α] (xs : List α) : Option α :=
  if xs.length = 0 then none else some (xs.foldl (· + ·) Scalar.zero / (xs.length : α))

namespace GroupSummary
variable {α : Type} [Scalar α]

def average (s : GroupSummary α) : Measure → Average α
  | .first => s.first
  | .second => s.second

omit [Scalar α] in
theorem eq_of_average {s t : GroupSummary α} (hcount : s.count = t.count)
    (haverage : ∀ m, s.average m = t.average m) (hlabels : s.labels = t.labels) : s = t := by
  cases s
  cases t
  exact (GroupSummary.mk.injEq ..).mpr ⟨hcount, haverage .first, haverage .second, hlabels⟩

theorem average_foldl (events : List (Event α)) (s : GroupSummary α) (m : Measure) :
    (events.foldl add s).average m =
      ⟨(events.filterMap (·.measure m)).foldl (· + ·) (s.average m).total,
        (s.average m).count + (events.filterMap (·.measure m)).length⟩ := by
  induction events generalizing s with
  | nil => rfl
  | cons e events ih =>
    have hadd : (s.add e).average m = (s.average m).add (e.measure m) := by cases m <;> rfl
    rw [List.foldl_cons, ih, hadd, List.filterMap_cons]
    cases e.measure m with
    | none => rfl
    | some x => exact congrArg (Average.mk _) (Nat.succ_add_eq_add_succ _ _)

theorem average_ofEvents (events : List (Event α)) (m : Measure) :
    (ofEvents events).average m =
      ⟨(events.filterMap (·.measure m)).foldl (· + ·) Scalar.zero,
        (events.filterMap (·.measure m)).length⟩ := by
  have hempty : (empty : GroupSummary α).average m = .empty := by cases m <;> rfl
  rw [ofEvents, average_foldl, hempty, Average.empty, Nat.zero_add]

theorem mean?_ofEvents (events : List (Event α)) (m : Measure) :
    ((ofEvents events).average m).mean? = meanOf (events.filterMap (·.measure m)) := by
  rw [average_ofEvents]
  rfl

theorem sum_countLabel (label : String) (counts : List (String × ℕ)) :
    ((countLabel label counts).map Prod.snd).sum = (counts.map Prod.snd).sum + 1 := by
  induction counts with
  | nil => rfl
  | cons c counts ih =>
    obtain ⟨l, n⟩ := c
    simp only [countLabel]
    split_ifs with hl hlt
    · simp only [List.map_cons, List.sum_cons]
      omega
    · simp only [List.map_cons, List.sum_cons]
      omega
    · simp only [List.map_cons, List.sum_cons, ih]
      omega

theorem sum_labels_foldl (events : List (Event α)) (s : GroupSummary α) :
    ((events.foldl add s).labels.map Prod.snd).sum =
      (s.labels.map Prod.snd).sum + events.length := by
  induction events generalizing s with
  | nil => rfl
  | cons e events ih =>
    have hadd : ((s.add e).labels.map Prod.snd).sum = (s.labels.map Prod.snd).sum + 1 :=
      sum_countLabel e.label s.labels
    rw [List.foldl_cons, ih, hadd, List.length_cons]
    omega

/-- Each event is counted under one label. -/
theorem sum_labels_ofEvents (events : List (Event α)) :
    ((ofEvents events).labels.map Prod.snd).sum = (ofEvents events).count := by
  rw [count_ofEvents, ofEvents, sum_labels_foldl]
  exact Nat.zero_add _

end GroupSummary

section Exact
open GroupSummary Summary

theorem foldl_add_rat (xs : List ℚ) : xs.foldl (· + ·) Scalar.zero = xs.sum := by
  rw [Scalar.zero_rat]
  exact List.sum_eq_foldl.symm

theorem GroupSummary.ofEvents_perm {events events' : List (Event ℚ)} (h : events.Perm events') :
    GroupSummary.ofEvents events = GroupSummary.ofEvents events' := by
  refine eq_of_average ?_ (fun m => ?_) ?_
  · rw [count_ofEvents, count_ofEvents, h.length_eq]
  · have hperm := h.filterMap (·.measure m)
    rw [average_ofEvents, average_ofEvents, foldl_add_rat, foldl_add_rat, hperm.sum_eq,
      hperm.length_eq]
  · refine (orderly_ofEvents events).eq_of_occurrences (orderly_ofEvents events') fun l => ?_
    rw [occurrences_ofEvents, occurrences_ofEvents, (h.map _).count_eq]

theorem Summary.eq_of_group {α : Type} {s t : Summary α} (h : ∀ g, s.group g = t.group g) :
    s = t := by
  cases s
  cases t
  exact (Summary.mk.injEq ..).mpr ⟨h .anneal, h .search, h .trial⟩

theorem Summary.ofEvents_perm {events events' : List (Event ℚ)} (h : events.Perm events') :
    Summary.ofEvents events = Summary.ofEvents events' := by
  refine Summary.eq_of_group fun g => ?_
  rw [group_ofEvents, group_ofEvents]
  exact GroupSummary.ofEvents_perm (h.filter _)

theorem length_mul_meanOf (xs : List ℚ) : xs.length * (meanOf xs).getD 0 = xs.sum := by
  rw [meanOf, foldl_add_rat]
  split_ifs with h
  · rw [List.length_eq_zero_iff.mp h]
    simp
  · exact mul_div_cancel₀ _ (Nat.cast_ne_zero.mpr h)

/-- The average of two samples, weighted by how many values each of them has. -/
theorem meanOf_append (xs ys : List ℚ) : meanOf (xs ++ ys) =
    if xs.length + ys.length = 0 then none
    else some ((xs.length * (meanOf xs).getD 0 + ys.length * (meanOf ys).getD 0) /
      (xs.length + ys.length)) := by
  rw [length_mul_meanOf, length_mul_meanOf, meanOf, foldl_add_rat, List.sum_append,
    List.length_append, Nat.cast_add]

end Exact

section Lines
variable {α : Type} [Scalar α] {value : Float → α} {lines lines' : List Line}

/-- The summary of a log whose measures are taken for other numbers. -/
def Summary.ofLinesAs (value : Float → α) (lines : List Line) : Except Fault (Summary α) := do
  return .ofEvents ((← eventsIn lines).map (Event.map value))

theorem Summary.ofLinesAs_id (lines : List Line) : ofLinesAs id lines = ofLines lines := by
  have hid : (Event.map id : Event Float → Event Float) = id := by
    funext e
    simp [Event.map]
  simp only [ofLinesAs, ofLines, hid, List.map_id]

/-- The events of a group in some lines. -/
def ownEvents (value : Float → α) (g : Group) (lines : List Line) : List (Event α) :=
  (ownLines g lines).map fun line => (line.event g).map value

/-- The numbers that the lines of a group hold in the field of a measure. -/
def numbers (g : Group) (m : Measure) (lines : List Line) : List Float :=
  (ownLines g lines).filterMap fun line => measureOf (line.field? (g.field m))

omit [Scalar α] in
theorem filterMap_ownEvents (g : Group) (m : Measure) (lines : List Line) :
    (ownEvents value g lines).filterMap (·.measure m) = (numbers g m lines).map value := by
  rw [ownEvents, numbers, List.filterMap_map, List.map_filterMap]
  refine List.filterMap_congr fun line _ => ?_
  rw [Function.comp_apply, Event.measure_map]
  cases m <;> rfl

theorem ownLines_append (g : Group) (lines lines' : List Line) :
    ownLines g (lines ++ lines') = ownLines g lines ++ ownLines g lines' :=
  List.filter_append ..

theorem group_ofEvents_map (value : Float → α) (g : Group) (lines : List Line) :
    (Summary.ofEvents ((lines.filterMap Line.event?).map (Event.map value))).group g =
      .ofEvents (ownEvents value g lines) := by
  have hgroup : ((fun e => decide (e.group = g)) ∘ Event.map value : Event Float → Bool) =
      fun e => decide (e.group = g) := rfl
  rw [Summary.group_ofEvents, List.filter_map, hgroup, filter_group_events, List.map_map]
  rfl

/-- A log is taken if its lines are, and is then summarised group by group. -/
theorem Summary.ofLinesAs_eq_ok_iff {s : Summary α} : ofLinesAs value lines = .ok s ↔
    (∀ line ∈ lines, line.IsBlank ∨ line.IsReadable) ∧
      ∀ g, s.group g = .ofEvents (ownEvents value g lines) := by
  rw [ofLinesAs, Result.bind_eq_ok_iff]
  simp only [eventsIn_eq_ok_iff]
  constructor
  · rintro ⟨_, ⟨hlines, rfl⟩, h⟩
    obtain rfl := Except.ok.inj h
    exact ⟨hlines, fun g => group_ofEvents_map value g lines⟩
  · rintro ⟨hlines, hgroups⟩
    refine ⟨_, ⟨hlines, rfl⟩, congrArg Except.ok (eq_of_group fun g => ?_)⟩
    rw [group_ofEvents_map, hgroups]

theorem Summary.exists_error_iff :
    (∃ fault, ofLinesAs value lines = .error fault) ↔
      ∃ line ∈ lines, ¬ line.IsBlank ∧ ¬ line.IsReadable := by
  have hok : (∃ s, ofLinesAs value lines = .ok s) ↔
      ∀ line ∈ lines, line.IsBlank ∨ line.IsReadable := by
    constructor
    · rintro ⟨s, hs⟩
      exact (ofLinesAs_eq_ok_iff.mp hs).1
    · intro h
      exact ⟨_, ofLinesAs_eq_ok_iff.mpr ⟨h, fun g => group_ofEvents_map value g lines⟩⟩
  have herror : (∃ fault, ofLinesAs value lines = .error fault) ↔
      ¬ ∃ s, ofLinesAs value lines = .ok s := by
    cases ofLinesAs value lines <;> simp
  rw [herror, hok]
  simp only [not_forall, not_or, exists_prop]

theorem Line.isReadable_of_field? {line : Line} (h : line.IsBlank ∨ line.IsReadable) {name : String}
    {v : Json} (hv : line.field? name = some v) : v.isReadable = true := by
  obtain ⟨fields, hmember, hvalue⟩ := Option.bind_eq_some_iff.mp hv
  obtain ⟨record, hline, hfields⟩ := Option.bind_eq_some_iff.mp hmember
  obtain ⟨text, rfl, hrecord⟩ := Option.bind_eq_some_iff.mp hline
  split_ifs at hrecord with hblank
  rcases h with ⟨_, heq, hblank'⟩ | ⟨_, _, heq, hread, hreadable⟩
  · cases heq
    exact absurd hblank' hblank
  · cases heq
    obtain rfl := Option.some.inj (hread.symm.trans hrecord)
    exact Json.isReadable_of_field? (Json.isReadable_of_field? hreadable hfields) hvalue

/-- A field is averaged over exactly where it holds a number. -/
theorem Line.isSome_measureOf {line : Line} (h : line.IsBlank ∨ line.IsReadable) (name : String) :
    (measureOf (line.field? name)).isSome = line.hasNumber name := by
  unfold hasNumber
  cases hv : line.field? name with
  | none => rfl
  | some v =>
    have hreadable := isReadable_of_field? h hv
    cases v with
    | number n => exact hreadable
    | _ => rfl

/-- How many lines of a group hold a number in the field of a measure. -/
def holding (g : Group) (m : Measure) (lines : List Line) : ℕ :=
  (ownLines g lines).countP (·.hasNumber (g.field m))

theorem length_numbers (h : ∀ line ∈ lines, line.IsBlank ∨ line.IsReadable) (g : Group)
    (m : Measure) : (numbers g m lines).length = holding g m lines := by
  rw [numbers, List.length_filterMap_eq_countP]
  exact List.countP_congr fun line hline => by
    rw [Line.isSome_measureOf (h line (List.mem_of_mem_filter hline))]

/-- What the summary of a group says of the lines of a log. -/
structure GroupSummary.Describes (s : GroupSummary α) (value : Float → α) (g : Group)
    (lines : List Line) : Prop where
  count : s.count = lines.countP fun line => line.target? = some g.target
  labels : (s.labels.map Prod.snd).sum = s.count
  orderly : Orderly s.labels
  occurrences : ∀ l, occurrences s.labels l =
    (ownLines g lines).countP fun line => labelOf (line.field? g.labelField) = l
  averages : ∀ m, (s.average m).mean? = meanOf ((numbers g m lines).map value)
  held : ∀ m, (numbers g m lines).length = holding g m lines

theorem Summary.describes_of_ofLinesAs {s : Summary α} (h : ofLinesAs value lines = .ok s)
    (g : Group) : (s.group g).Describes value g lines := by
  obtain ⟨hlines, hgroups⟩ := ofLinesAs_eq_ok_iff.mp h
  rw [hgroups]
  refine ⟨?_, GroupSummary.sum_labels_ofEvents _, GroupSummary.orderly_ofEvents _, fun l => ?_,
    fun m => ?_, length_numbers hlines g⟩
  · rw [GroupSummary.count_ofEvents, ownEvents, List.length_map, ownLines,
      List.countP_eq_length_filter]
  · rw [GroupSummary.occurrences_ofEvents, ownEvents, List.map_map, List.count_eq_countP,
      List.countP_map]
    refine List.countP_congr fun line _ => ?_
    rw [Function.comp_apply, beq_iff_eq, decide_eq_true_eq]
    rfl
  · rw [GroupSummary.mean?_ofEvents, filterMap_ownEvents]

end Lines

section ExactLines
variable {value : Float → ℚ} {lines lines' : List Line}

/-- No order of the lines shows in whether a log is taken and how it is summarised. -/
theorem Summary.ofLinesAs_perm (h : lines.Perm lines') :
    (ofLinesAs value lines).toOption = (ofLinesAs value lines').toOption := by
  have hgroups (g : Group) : GroupSummary.ofEvents (ownEvents value g lines) =
      GroupSummary.ofEvents (ownEvents value g lines') :=
    GroupSummary.ofEvents_perm ((h.filter _).map _)
  refine Option.ext fun s => ?_
  simp only [Result.toOption_eq_some_iff, ofLinesAs_eq_ok_iff, h.mem_iff, hgroups]

/-- The summary of a group from those of two logs, which hold so many numbers. -/
structure GroupSummary.Joins (t s s' : GroupSummary ℚ) (n n' : Measure → ℕ) : Prop where
  count : t.count = s.count + s'.count
  occurrences : ∀ l, occurrences t.labels l = occurrences s.labels l + occurrences s'.labels l
  averages : ∀ m, (t.average m).mean? = if n m + n' m = 0 then none
    else some ((n m * (s.average m).mean?.getD 0 + n' m * (s'.average m).mean?.getD 0) /
      (n m + n' m))

theorem Summary.ofLinesAs_append {s s' : Summary ℚ} (hs : ofLinesAs value lines = .ok s)
    (hs' : ofLinesAs value lines' = .ok s') :
    ∃ t, ofLinesAs value (lines ++ lines') = .ok t ∧ ∀ g, (t.group g).Joins (s.group g) (s'.group g)
      (holding g · lines) (holding g · lines') := by
  obtain ⟨hlines, hgroups⟩ := ofLinesAs_eq_ok_iff.mp hs
  obtain ⟨hlines', hgroups'⟩ := ofLinesAs_eq_ok_iff.mp hs'
  refine ⟨_, ofLinesAs_eq_ok_iff.mpr ⟨?_, fun g => group_ofEvents_map value g _⟩, fun g => ?_⟩
  · exact List.forall_mem_append.mpr ⟨hlines, hlines'⟩
  · have hown : ownEvents value g (lines ++ lines') =
        ownEvents value g lines ++ ownEvents value g lines' := by
      rw [ownEvents, ownLines_append, List.map_append]
      rfl
    rw [group_ofEvents_map, hgroups, hgroups', hown]
    refine ⟨?_, fun l => ?_, fun m => ?_⟩
    · simp only [GroupSummary.count_ofEvents, List.length_append]
    · simp only [GroupSummary.occurrences_ofEvents, List.map_append, List.count_append]
    · simp only [GroupSummary.mean?_ofEvents, List.filterMap_append, filterMap_ownEvents,
        ← length_numbers hlines, ← length_numbers hlines', meanOf_append, List.length_map]

end ExactLines

section Files
open Files Benchmark

variable {ε β γ : Type} {x : ExceptT ε (StateM World) β} {f : β → ExceptT ε (StateM World) γ}
  {w w' : World}

theorem run_bind_of_ok {b : β} (h : x.run w = (.ok b, w')) : (x >>= f).run w = (f b).run w' := by
  have hbind : (x >>= f).run w = ExceptT.bindCont f (x.run w).1 (x.run w).2 := rfl
  rw [hbind, h]
  rfl

theorem run_bind_of_error {e : ε} (h : x.run w = (.error e, w')) :
    (x >>= f).run w = (.error e, w') := by
  have hbind : (x >>= f).run w = ExceptT.bindCont f (x.run w).1 (x.run w).2 := rfl
  rw [hbind, h]
  rfl

variable {path : String} {log : ByteArray}

theorem run_isThere (hread : w.tree.read path = .ok log) :
    (liftM (Host.isThere path : StateM World Bool) : ExceptT ε (StateM World) Bool).run w =
      (.ok true, w) := by
  obtain ⟨found, hlook, -⟩ := Result.bind_eq_ok_iff.mp hread
  have hthere : (w.tree.look path).toBool = true := by
    rw [hlook]
    rfl
  exact congrArg (fun there => (Except.ok there, w)) hthere

theorem run_read {wrap : Files.Fault → ε} (hread : w.tree.read path = .ok log) :
    (onFiles wrap (Host.read path : StateM World _)).run w = (.ok log, w) := by
  simp only [onFiles, ExceptT.run, ExceptT.mk, bind, StateT.bind, Host.read, hread]
  rfl

theorem readTelemetry_of_fault {fault : Fault} (hread : w.tree.read path = .ok log)
    (hfault : Summary.ofLines (linesOf log) = .error fault) :
    ∃ failure, (readTelemetry path : ExceptT TelemetryFailure (StateM World) _).run w =
      (.error failure, w) := by
  rw [readTelemetry, run_bind_of_ok (run_isThere hread)]
  simp only [Bool.not_true, Bool.false_eq_true, ↓reduceIte]
  rw [run_bind_of_ok (run_read hread), hfault]
  cases fault <;> exact ⟨_, rfl⟩

/-- A log that is not taken leaves every file as it was. -/
theorem summariseLog_of_fault {fault : Fault} (hread : w.tree.read path = .ok log)
    (hfault : Summary.ofLines (linesOf log) = .error fault) (summaryPath : String) :
    ∃ failure, (summariseLog path summaryPath : ExceptT TelemetryFailure (StateM World) _).run w =
      (.error failure, w) := by
  obtain ⟨failure, hfailure⟩ := readTelemetry_of_fault hread hfault
  refine ⟨failure, ?_⟩
  rw [summariseLog, run_bind_of_ok (run_isThere hread)]
  simp only [Bool.not_true, Bool.false_eq_true, ↓reduceIte]
  exact run_bind_of_error hfailure

end Files

open Files Benchmark in
/-- A log is summarised exactly if each of its lines is blank or accepted as JSON; if one is not, no
file is written. A group counts the lines with its target, once under the label that each carries,
and averages over those that hold a number in the field of a measure. Over exact arithmetic the
order of the lines does not show, and the summary of one log behind another counts what both count,
with averages weighted by the lines that hold the field. -/
theorem summary_folds_lines (value : Float → ℚ) (lines lines' : List Line) :
    ((∃ fault, Summary.ofLines lines = .error fault) ↔
      ∃ line ∈ lines, ¬ line.IsBlank ∧ ¬ line.IsReadable) ∧
    (∀ (w : World) (path summaryPath : String) (log : ByteArray), w.tree.read path = .ok log →
      (∃ line ∈ linesOf log, ¬ line.IsBlank ∧ ¬ line.IsReadable) → ∃ failure,
        (summariseLog path summaryPath : ExceptT TelemetryFailure (StateM World) _).run w =
          (.error failure, w)) ∧
    (∀ s, Summary.ofLines lines = .ok s → ∀ g, (s.group g).Describes id g lines) ∧
    (∀ s, Summary.ofLinesAs value lines = .ok s → ∀ g, (s.group g).Describes value g lines) ∧
    (lines.Perm lines' →
      (Summary.ofLinesAs value lines).toOption = (Summary.ofLinesAs value lines').toOption) ∧
    ∀ s s', Summary.ofLinesAs value lines = .ok s → Summary.ofLinesAs value lines' = .ok s' →
      ∃ t, Summary.ofLinesAs value (lines ++ lines') = .ok t ∧
        ∀ g, (t.group g).Joins (s.group g) (s'.group g) (holding g · lines)
          (holding g · lines') := by
  refine ⟨?_, fun w path summaryPath log hread hline => ?_, fun s hs => ?_,
    fun s hs => Summary.describes_of_ofLinesAs hs, Summary.ofLinesAs_perm,
    fun s s' hs hs' => Summary.ofLinesAs_append hs hs'⟩
  · rw [← Summary.ofLinesAs_id]
    exact Summary.exists_error_iff
  · obtain ⟨fault, hfault⟩ : ∃ fault, Summary.ofLinesAs id (linesOf log) = .error fault :=
      Summary.exists_error_iff.mpr hline
    rw [Summary.ofLinesAs_id] at hfault
    exact summariseLog_of_fault hread hfault summaryPath
  · rw [← Summary.ofLinesAs_id] at hs
    exact Summary.describes_of_ofLinesAs hs

open Files Benchmark in
/-- Two trials of 2 and 4 milliseconds, one of them in each of two logs, and a log of no JSON. -/
theorem summary_folds_lines_of_trials :
    let value : Float → ℚ := fun x => x.toUInt64.toNat
    let quick : Line := some ("\x7b\"target\":\"sqaod_bench::trial\"," ++
      "\"fields\":\x7b\"elapsed_ms\":2,\"solver\":\"exact\"\x7d\x7d")
    let slow : Line := some ("\x7b\"target\":\"sqaod_bench::trial\"," ++
      "\"fields\":\x7b\"elapsed_ms\":4,\"gap\":null\x7d\x7d")
    let log : ByteArray := (String.join (["oops"].map (· ++ "\n"))).toUTF8
    let w : World := ⟨⟨[(["log"], .file log)]⟩, #[]⟩
    (∃ failure, (summariseLog "log" "summary" : ExceptT TelemetryFailure (StateM World) _).run w =
      (.error failure, w)) ∧
    (∃ s, Summary.ofLines [quick, some " ", slow] = .ok s ∧
      (s.group .trial).Describes id .trial [quick, some " ", slow]) ∧
    (∃ s, Summary.ofLinesAs value [quick] = .ok s ∧
      (s.group .trial).Describes value .trial [quick]) ∧
    (Summary.ofLinesAs value [quick, slow]).toOption =
      (Summary.ofLinesAs value [slow, quick]).toOption ∧
    ∃ s s' t, Summary.ofLinesAs value [quick] = .ok s ∧ Summary.ofLinesAs value [slow] = .ok s' ∧
      Summary.ofLinesAs value ([quick] ++ [slow]) = .ok t ∧
      (t.group .trial).Joins (s.group .trial) (s'.group .trial) (holding .trial · [quick])
        (holding .trial · [slow]) := by
  intro value quick slow log w
  have htaken : (Summary.ofLines [quick, some " ", slow]).toOption.isSome = true := by
    decide +kernel
  obtain ⟨s, hs⟩ := Result.exists_eq_ok htaken
  have hquick : (Summary.ofLinesAs value [quick]).toOption.isSome = true := by decide +kernel
  obtain ⟨sq, hsq⟩ := Result.exists_eq_ok hquick
  have hslow : (Summary.ofLinesAs value [slow]).toOption.isSome = true := by decide +kernel
  obtain ⟨sl, hsl⟩ := Result.exists_eq_ok hslow
  have hnames : Path.names "log" = ["log"] := by cbv
  have hform : Path.isDirectoryForm "log" = false := by cbv
  have hread : w.tree.read "log" = .ok log := by
    simp [w, Tree.read, Tree.look, Tree.place, Tree.walk, Tree.find?, hnames, hform, bind,
      Except.bind, pure, Except.pure]
  have hlines : linesOf log = ["oops"].map some ++ [some ""] := linesOf_join (by decide)
  have hoops : ∃ line ∈ linesOf log, ¬ line.IsBlank ∧ ¬ line.IsReadable := by
    have hblank : Text.isBlankText "oops" = false := by decide +kernel
    have hnone : (Json.read? "oops").isNone = true := by decide +kernel
    refine ⟨some "oops", hlines ▸ by simp, ?_, ?_⟩
    · rintro ⟨text, heq, h⟩
      cases heq
      exact absurd (hblank.symm.trans h) Bool.false_ne_true
    · rintro ⟨text, record, heq, h, -⟩
      cases heq
      rw [h] at hnone
      cases hnone
  obtain ⟨-, hfile, hdescribes, -⟩ := summary_folds_lines value [quick, some " ", slow] []
  obtain ⟨-, -, -, hexact, -, hjoin⟩ := summary_folds_lines value [quick] [slow]
  obtain ⟨-, -, -, -, hperm, -⟩ := summary_folds_lines value [quick, slow] [slow, quick]
  obtain ⟨t, ht, hjoins⟩ := hjoin sq sl hsq hsl
  exact ⟨hfile w "log" "summary" log hread hoops, ⟨s, hs, hdescribes s hs .trial⟩,
    ⟨sq, hsq, hexact sq hsq .trial⟩, hperm (.swap ..), sq, sl, t, hsq, hsl, ht, hjoins .trial⟩

end Qubo.Telemetry

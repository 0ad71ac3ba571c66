import Mathlib.Tactic
import Qubo.Proofs.Result
import Qubo.Proofs.Telemetry.Records
import Qubo.Telemetry.Summary

/-! What the lines of a log hold: records with their targets and fields, and the events that these
stand for. A line that is neither blank nor a record is refused, and the whole log with it. -/
namespace Qubo

namespace Json

theorem isReadable_of_field? {j v : Json} {name : String} (h : j.isReadable = true)
    (hv : j.field? name = some v) : v.isReadable = true := by
  cases j with
  | object fields =>
    obtain ⟨f, hf, rfl⟩ := Option.map_eq_some_iff.mp hv
    exact fieldsReadable_iff.mp h f (List.mem_reverse.mp (List.mem_of_find?_eq_some hf))
  | _ => cases hv

end Json

namespace Telemetry

namespace Line

def IsBlank (line : Line) : Prop := ∃ text, line = some text ∧ Text.isBlankText text = true

/-- Text that the reader of logs accepts: a value of JSON that is not nested too deep for it, and
whose numbers floats can hold. -/
def IsReadable (line : Line) : Prop :=
  ∃ text record, line = some text ∧ Json.read? text = some record ∧ record.isReadable = true

/-- The record in a line that is not blank. -/
def record? (line : Line) : Option Json :=
  line.bind fun text => if Text.isBlankText text then none else Json.read? text

def target? (line : Line) : Option String :=
  match line.record?.bind (·.field? "target") with
  | some (.string target) => some target
  | _ => none

/-- A value from the fields of the record in a line. -/
def field? (line : Line) (name : String) : Option Json :=
  (line.record?.bind (·.field? "fields")).bind (·.field? name)

def hasNumber (name : String) (line : Line) : Bool :=
  match line.field? name with
  | some (.number _) => true
  | _ => false

def event (g : Group) (line : Line) : Event Float where
  group := g
  first := measureOf (line.field? g.firstField)
  second := measureOf (line.field? g.secondField)
  label := labelOf (line.field? g.labelField)

def event? (line : Line) : Option (Event Float) := line.record?.bind Event.ofJson?

/-- Records are told apart by their targets. -/
theorem event?_eq (line : Line) :
    line.event? = line.target?.bind fun target => (Group.ofTarget? target).map (event · line) := by
  unfold event? target? event field?
  cases line.record? with
  | none => rfl
  | some record =>
    simp only [Option.bind_some, Event.ofJson?]
    cases record.field? "target" with
    | none => rfl
    | some v => cases v <;> rfl

end Line

theorem recordIn_eq_ok_iff {line : Line} {record : Option Json} :
    recordIn line = .ok record ↔ (line.IsBlank ∨ line.IsReadable) ∧ line.record? = record := by
  cases line with
  | none => simp [recordIn, Line.IsBlank, Line.IsReadable]
  | some text =>
    by_cases hblank : Text.isBlankText text = true
    · simp [recordIn, Line.record?, Line.IsBlank, hblank]
    · cases hread : Json.read? text with
      | none => simp [recordIn, Line.IsBlank, Line.IsReadable, hblank, hread]
      | some j =>
        by_cases hreadable : j.isReadable = true <;>
          simp [recordIn, Line.record?, Line.IsBlank, Line.IsReadable, hblank, hread, hreadable]

/-- A log is taken if each of its lines is, and then gives the events in them in order. -/
theorem eventsIn_eq_ok_iff {lines : List Line} {events : List (Event Float)} :
    eventsIn lines = .ok events ↔
      (∀ line ∈ lines, line.IsBlank ∨ line.IsReadable) ∧ lines.filterMap Line.event? = events := by
  induction lines generalizing events with
  | nil => exact ⟨fun h => ⟨by simp, Except.ok.inj h⟩, fun h => congrArg Except.ok h.2⟩
  | cons line lines ih =>
    have hcons : (line :: lines).filterMap Line.event? =
        (line.record?.bind Event.ofJson?).toList ++ lines.filterMap Line.event? := by
      rw [List.filterMap_cons, Line.event?]
      cases line.record?.bind Event.ofJson? <;> rfl
    rw [eventsIn, List.forall_mem_cons, hcons]
    simp only [Result.bind_eq_ok_iff, recordIn_eq_ok_iff, ih]
    constructor
    · rintro ⟨_, ⟨hline, rfl⟩, _, ⟨hlines, rfl⟩, h⟩
      exact ⟨⟨hline, hlines⟩, Except.ok.inj h⟩
    · rintro ⟨⟨hline, hlines⟩, rfl⟩
      exact ⟨_, ⟨hline, rfl⟩, _, ⟨hlines, rfl⟩, rfl⟩

/-- The lines of a group are those with its target. -/
def ownLines (g : Group) (lines : List Line) : List Line :=
  lines.filter fun line => line.target? = some g.target

/-- An event of a group is in a line exactly if that line is one of the group's own. -/
theorem filter_event? (g : Group) (line : Line) :
    (line.event?.filter fun e => e.group = g) =
      if line.target? = some g.target then some (line.event g) else none := by
  rw [Line.event?_eq]
  split_ifs with htarget
  · rw [htarget, Option.bind_some, ofTarget?_eq_some_iff.mpr rfl]
    exact if_pos (decide_eq_true rfl)
  · rw [Option.filter_eq_none_iff]
    intro e he
    obtain ⟨target, ht, he⟩ := Option.bind_eq_some_iff.mp he
    obtain ⟨g', hg', rfl⟩ := Option.map_eq_some_iff.mp he
    rw [decide_eq_true_eq]
    rintro rfl
    exact htarget (ht.trans (congrArg some (ofTarget?_eq_some_iff.mp hg')))

theorem filter_group_events (g : Group) (lines : List Line) :
    (lines.filterMap Line.event?).filter (fun e => e.group = g) =
      (ownLines g lines).map (Line.event g) := by
  rw [List.filter_filterMap, ownLines, ← List.filterMap_eq_map', List.filterMap_filter]
  refine List.filterMap_congr fun line _ => ?_
  rw [filter_event?]
  simp only [decide_eq_true_eq]

end Telemetry

end Qubo

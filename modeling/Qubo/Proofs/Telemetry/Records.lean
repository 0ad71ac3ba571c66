import Mathlib.Tactic
import Qubo.Log.Line
import Qubo.Proofs.Float.Range
import Qubo.Proofs.Json.RoundTrip
import Qubo.Proofs.Telemetry.Lines
import Qubo.Telemetry.Summary

/-! A log is read back record by record: each stands on a line of its own, and as long as its counts
are words it can be held. -/
namespace Qubo

namespace Json
open Decimal

theorem linefeed_not_mem_text (ds : List Digit) : '\n' ∉ text ds := by
  intro h
  obtain ⟨d, -, hd⟩ := List.mem_map.mp h
  revert d
  decide

theorem linefeed_not_mem_numeralChars (n : Numeral) : '\n' ∉ numeralChars n := by
  have hfraction : '\n' ∉ fractionChars n.fraction := by
    rw [fractionChars]
    split <;> simp [linefeed_not_mem_text]
  have hexponent : '\n' ∉ exponentChars n.exponent := by
    rw [exponentChars.eq_def]
    split <;> simp [linefeed_not_mem_text]
  rw [numeralChars_eq]
  cases n.negative <;> simp [linefeed_not_mem_text, hfraction, hexponent]

theorem linefeed_ne_hexChar {n : ℕ} (h : n < 16) : '\n' ≠ hexChar n := by
  revert n
  decide

theorem linefeed_not_mem_escapeChar (c : Char) : '\n' ∉ escapeChar c := by
  unfold escapeChar
  split_ifs with _ _ _ _ hfeed _ _ hcontrol
  any_goals decide
  · have hhigh := linefeed_ne_hexChar (show c.toNat / 16 < 16 by omega)
    have hlow := linefeed_ne_hexChar (show c.toNat % 16 < 16 by omega)
    simp [hhigh, hlow]
  · simpa using Ne.symm hfeed

theorem linefeed_not_mem_stringChars (s : String) : '\n' ∉ stringChars s := by
  simp [stringChars, linefeed_not_mem_escapeChar]

mutual
theorem linefeed_not_mem_compactChars : ∀ j : Json, '\n' ∉ j.compactChars
  | .null | .unreadable | .bool true | .bool false | .array [] | .object [] => by
    simp [compactChars]
  | .number n => linefeed_not_mem_numeralChars n
  | .string s => linefeed_not_mem_stringChars s
  | .array (v :: vs) => by
    simp [compactChars, linefeed_not_mem_compactChars v, linefeed_not_mem_compactItems vs]
  | .object ((name, v) :: fs) => by
    simp [compactChars, linefeed_not_mem_stringChars, linefeed_not_mem_compactChars v,
      linefeed_not_mem_compactFields fs]
theorem linefeed_not_mem_compactItems : ∀ vs : List Json, '\n' ∉ compactItems vs
  | [] => by simp [compactItems]
  | v :: vs => by
    simp [compactItems, linefeed_not_mem_compactChars v, linefeed_not_mem_compactItems vs]
theorem linefeed_not_mem_compactFields : ∀ fs : List (String × Json), '\n' ∉ compactFields fs
  | [] => by simp [compactFields]
  | (name, v) :: fs => by
    simp [compactFields, linefeed_not_mem_stringChars, linefeed_not_mem_compactChars v,
      linefeed_not_mem_compactFields fs]
end

theorem fieldsReadable_iff {fields : List (String × Json)} :
    fieldsReadable fields = true ↔ ∀ f ∈ fields, f.2.isReadable = true := by
  induction fields with
  | nil => simp [fieldsReadable]
  | cons f fs ih => simp [fieldsReadable, ih]

end Json

namespace Log

def Value.IsWord : Value → Prop
  | .count n => n < UInt64.size
  | _ => True

/-- Every count fits a word. -/
def Record.HasWords (r : Record) : Prop := ∀ f ∈ r.fields, f.2.IsWord

theorem Value.fits (v : Value) (levels : ℕ) : v.toJson.Fits levels := by
  cases v with
  | text s => trivial
  | count n => exact Json.Numeral.wellFormed_ofNat n
  | real x => exact Float64.fits_ofFloat levels x
  | flag b => trivial

theorem Value.IsWord.isReadable {v : Value} (h : v.IsWord) : v.toJson.isReadable = true := by
  cases v with
  | text s => rfl
  | count n => exact Float64.isSome_toFloat?_ofNat h
  | real x => exact Float64.isReadable_ofFloat x
  | flag b => rfl

theorem Record.fits (r : Record) : r.toJson.Fits Json.maxDepth := by
  have hfields : Json.Fits 126 (.object (r.fields.map fun f => (f.1, f.2.toJson))) := by
    refine ⟨by norm_num, Json.fieldsFit_iff.mpr fun f hf => ?_⟩
    obtain ⟨g, -, rfl⟩ := List.mem_map.mp hf
    exact g.2.fits _
  exact ⟨by norm_num [Json.maxDepth], trivial, hfields, trivial, trivial⟩

theorem Record.HasWords.isReadable {r : Record} (h : r.HasWords) : r.toJson.isReadable = true := by
  have hfields : Json.isReadable (.object (r.fields.map fun f => (f.1, f.2.toJson))) = true := by
    refine Json.fieldsReadable_iff.mpr fun f hf => ?_
    obtain ⟨g, hg, rfl⟩ := List.mem_map.mp hf
    exact (h g hg).isReadable
  refine Json.fieldsReadable_iff.mpr fun f hf => ?_
  simp only [List.mem_cons, List.not_mem_nil, or_false] at hf
  rcases hf with rfl | rfl | rfl
  · rfl
  · exact hfields
  · rfl

end Log

namespace Telemetry
open Log

theorem recordIn_compact {r : Record} (h : r.HasWords) :
    recordIn (some r.toJson.compact) = .ok (some r.toJson) := by
  have hbegin : Text.isBlankText r.toJson.compact = false := by
    rw [Text.isBlankText, Json.compact, String.toList_ofList]
    rfl
  simp [recordIn, hbegin, Json.read?_compact r.fits, h.isReadable]

theorem eventsIn_compact {records : List Record} (h : ∀ r ∈ records, r.HasWords) :
    eventsIn (records.map (fun r => some r.toJson.compact) ++ [some ""]) =
      .ok (records.filterMap fun r => Event.ofJson? r.toJson) := by
  induction records with
  | nil => rfl
  | cons r records ih =>
    obtain ⟨hr, hrecords⟩ := List.forall_mem_cons.mp h
    rw [List.map_cons, List.cons_append, eventsIn, recordIn_compact hr, ih hrecords]
    cases hevent : Event.ofJson? r.toJson <;> simp [hevent, bind, Except.bind, pure, Except.pure]

/-- What is summarised of a log are the events in the records that have passed. -/
theorem ofLines_lines (f : Filter) {records : List Record} (h : ∀ r ∈ records, r.HasWords) :
    Summary.ofLines (linesOf (lines f records).toUTF8) =
      .ok (.ofEvents ((records.filter f.keeps).filterMap fun r => Event.ofJson? r.toJson)) := by
  have hkept : ∀ r ∈ records.filter f.keeps, r.HasWords := fun r hr =>
    h r (List.mem_of_mem_filter hr)
  have hlines : linesOf (lines f records).toUTF8 =
      (records.filter f.keeps).map (fun r => some r.toJson.compact) ++ [some ""] := by
    have hfeed : ∀ text ∈ (records.filter f.keeps).map fun r => r.toJson.compact,
        '\n' ∉ text.toList := by
      intro text htext
      obtain ⟨r, -, rfl⟩ := List.mem_map.mp htext
      rw [Json.compact, String.toList_ofList]
      exact Json.linefeed_not_mem_compactChars _
    have hjoin := linesOf_join hfeed
    rwa [List.map_map, List.map_map] at hjoin
  rw [Summary.ofLines, hlines, eventsIn_compact hkept]
  rfl

/-- A record as an event of a group. -/
def eventOf (g : Group) (r : Record) : Event Float :=
  let field (name : String) : Option Json :=
    (Json.object (r.fields.map fun f => (f.1, f.2.toJson))).field? name
  { group := g
    first := measureOf (field g.firstField)
    second := measureOf (field g.secondField)
    label := labelOf (field g.labelField) }

theorem ofJson?_toJson (r : Record) :
    Event.ofJson? r.toJson = (Group.ofTarget? r.target).map (eventOf · r) := rfl

theorem ofTarget?_eq_some_iff {target : String} {g : Group} :
    Group.ofTarget? target = some g ↔ target = g.target := by
  constructor
  · intro h
    have hfound := List.find?_some (p := fun g : Group => g.target == target) h
    exact (beq_iff_eq.mp hfound).symm
  · rintro rfl
    cases g <;> decide

/-- The events of a group are the records with its target. -/
theorem filter_events (f : Filter) (g : Group) (records : List Record) :
    (((records.filter f.keeps).filterMap fun r => Event.ofJson? r.toJson).filter
      fun e => e.group = g) =
    (records.filter fun r => f.keeps r && r.target == g.target).map (eventOf g) := by
  induction records with
  | nil => rfl
  | cons r records ih =>
    rw [List.filter_cons, List.filter_cons]
    by_cases hkeeps : f.keeps r = true
    · rw [if_pos hkeeps, List.filterMap_cons, ofJson?_toJson]
      by_cases htarget : r.target = g.target
      · rw [ofTarget?_eq_some_iff.mpr htarget]
        simp [hkeeps, htarget, eventOf, ih]
      · have hother : ∀ g', Group.ofTarget? r.target = some g' → g' ≠ g := by
          rintro g' hg' rfl
          exact htarget (ofTarget?_eq_some_iff.mp hg')
        cases hg : Group.ofTarget? r.target with
        | none => simp [htarget, ih]
        | some g' => simp [htarget, eventOf, hother g' hg, ih]
    · simp [hkeeps, ih]

end Telemetry

end Qubo

import Qubo.Json.Reader
import Qubo.Log
import Qubo.Text.Blank

/-!
The events of a log that are summarised: ends of anneals, ends of searches, and trials. Each has
two measures and a label.
-/
namespace Qubo.Telemetry

inductive Group where
  | anneal
  | search
  | trial
  deriving DecidableEq, Repr

namespace Group

def all : List Group := [.anneal, .search, .trial]

def target : Group → String
  | .anneal => Log.annealTarget
  | .search => Log.searchTarget
  | .trial => Log.trialTarget

def ofTarget? (target : String) : Option Group := all.find? (·.target == target)

def firstField : Group → String
  | .anneal => "trotters"
  | .search => "optima"
  | .trial => "elapsed_ms"

def secondField : Group → String
  | .anneal | .search => "best_energy"
  | .trial => "gap"

def labelField : Group → String
  | .anneal | .search => "graph"
  | .trial => "solver"

end Group

structure Event (α : Type) where
  group : Group
  first : Option α
  second : Option α
  label : String
  deriving DecidableEq, Repr

/-- The label of an event that has none. -/
def unlabelled : String := "<unset>"

/-- The label that a field gives, without outer white space. -/
def labelOf (field : Option Json) : String :=
  match field with
  | some (.string s) => if Text.isBlankText s then unlabelled else Text.trim s
  | _ => unlabelled

def measureOf (field : Option Json) : Option Float :=
  match field with
  | some (.number n) => n.toFloat?
  | _ => none

/-- The event in a record of the log; records with other targets hold none. -/
def Event.ofJson? (record : Json) : Option (Event Float) :=
  match record.field? "target" with
  | some (.string target) =>
    (Group.ofTarget? target).map fun g =>
      let field (name : String) : Option Json := (record.field? "fields").bind (·.field? name)
      { group := g
        first := measureOf (field g.firstField)
        second := measureOf (field g.secondField)
        label := labelOf (field g.labelField) }
  | _ => none

inductive Fault where
  | encoding
  | json
  deriving DecidableEq, Repr

/-- A line of a log; none if it is no UTF-8 text. -/
abbrev Line := Option String

/-- Splits bytes at the line feeds, with the lines and the part of a line before them. -/
def splitFrom (lines : Array ByteArray) (line : ByteArray) : List UInt8 → Array ByteArray
  | [] => lines.push line
  | b :: bs =>
    if b = 10 then splitFrom (lines.push line) .empty bs else splitFrom lines (line.push b) bs

def linesOf (log : ByteArray) : List Line :=
  ((splitFrom #[] .empty log.toList).map String.fromUTF8?).toList

/-- The record in a line; a blank line holds none. -/
def recordIn (line : Line) : Except Fault (Option Json) :=
  match line with
  | none => .error .encoding
  | some text =>
    if Text.isBlankText text then .ok none
    else
      match Json.read? text with
      | none => .error .json
      | some record => if record.isReadable then .ok (some record) else .error .json

def eventsIn : List Line → Except Fault (List (Event Float))
  | [] => .ok []
  | line :: rest => do
    let record ← recordIn line
    let events ← eventsIn rest
    return (record.bind Event.ofJson?).toList ++ events

end Qubo.Telemetry

import Qubo.Scalar
import Qubo.Telemetry.Event

/-!
Summaries of logs: for each group of events their number, the averages of their measures over
those events that have them, and how often each label occurs.
-/
namespace Qubo.Telemetry
variable {α : Type} [Scalar α]

structure Average (α : Type) where
  total : α
  count : Nat
  deriving DecidableEq, Repr

namespace Average

@[specialize] def empty : Average α := ⟨Scalar.zero, 0⟩

@[specialize] def add (a : Average α) : Option α → Average α
  | none => a
  | some x => ⟨a.total + x, a.count + 1⟩

@[specialize] def mean? (a : Average α) : Option α :=
  if a.count = 0 then none else some (a.total / (a.count : α))

end Average

/-- Counts an occurrence of a label; labels are kept in the order of their code points. -/
def countLabel (label : String) : List (String × Nat) → List (String × Nat)
  | [] => [(label, 1)]
  | (l, n) :: rest =>
    if l = label then (l, n + 1) :: rest
    else if label < l then (label, 1) :: (l, n) :: rest
    else (l, n) :: countLabel label rest

structure GroupSummary (α : Type) where
  count : Nat
  first : Average α
  second : Average α
  labels : List (String × Nat)
  deriving DecidableEq, Repr

namespace GroupSummary

@[specialize] def empty : GroupSummary α := ⟨0, .empty, .empty, []⟩

@[specialize] def add (s : GroupSummary α) (e : Event α) : GroupSummary α :=
  ⟨s.count + 1, s.first.add e.first, s.second.add e.second, countLabel e.label s.labels⟩

end GroupSummary

structure Summary (α : Type) where
  anneal : GroupSummary α
  search : GroupSummary α
  trials : GroupSummary α
  deriving DecidableEq, Repr

namespace Summary

@[specialize] def empty : Summary α := ⟨.empty, .empty, .empty⟩

@[specialize] def add (s : Summary α) (e : Event α) : Summary α :=
  match e.group with
  | .anneal => { s with anneal := s.anneal.add e }
  | .search => { s with search := s.search.add e }
  | .trial => { s with trials := s.trials.add e }

@[specialize] def ofEvents (events : List (Event α)) : Summary α := events.foldl add empty

def ofLines (lines : List Line) : Except Fault (Summary Float) := do
  return .ofEvents (← eventsIn lines)

end Summary

end Qubo.Telemetry

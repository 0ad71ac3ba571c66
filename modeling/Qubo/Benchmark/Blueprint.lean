import Qubo.Benchmark.Config
import Qubo.Schedule

/-!
Solvers ready to be created: the parameters of a configured solver are read, and none is
silently ignored.
-/
namespace Qubo.Benchmark
open Yaml

inductive ParamFault where
  | unexpected (name : String)
  | unreadable (name : String)
  | invalid (name : String) (error : SolverError)
  deriving DecidableEq, Repr

def ParamFault.message : ParamFault → String
  | .unexpected name => s!"brute force solver '{name}' takes no parameters"
  | .unreadable name =>
    s!"invalid anneal parameters for solver '{name}': the value is not a schedule"
  | .invalid name error => s!"invalid anneal parameters for solver '{name}': {error.message}"

def floatOf? (v : Value) : Option Float :=
  match v.untagged with
  | .int i => some (Float.ofInt i)
  | .float x => some x
  | _ => none

/-- A whole number that is not negative; null is none. -/
def countOf? (v : Value) : Option (Option Nat) :=
  match v with
  | .null => some none
  | v =>
    match v.untagged with
    | .int (.ofNat n) => some (some n)
    | _ => none

/-- A schedule with one field set by name; there are no other fields. -/
def setField (s : Schedule Float) (name : String) (v : Value) : Option (Schedule Float) :=
  match name with
  | "g_start" => (floatOf? v).map fun x => { s with gStart := x }
  | "g_end" => (floatOf? v).map fun x => { s with gEnd := x }
  | "tau" => (floatOf? v).map fun x => { s with tau := x }
  | "kt" => (floatOf? v).map fun x => { s with kt := x }
  | "trotters" => (countOf? v).map fun n => { s with trotters := n }
  | _ => none

/-- The name under which an entry of a mapping sets a field. -/
def fieldName? (entry : Value × Value) : Option String :=
  match entry.1.untagged with
  | .string name => some name
  | _ => none

/-- A schedule with one entry of a mapping applied. -/
def setEntry (s : Schedule Float) (entry : Value × Value) : Option (Schedule Float) :=
  (fieldName? entry).bind fun name => setField s name entry.2

/-- The schedule that overrides the standard one; null overrides nothing. Keys that differ by their
tags alone name one field, which is not set twice. -/
def scheduleOf? (v : Value) : Option (Schedule Float) :=
  match v.untagged with
  | .null => some .standard
  | .mapping entries =>
    if (entries.map fieldName?).Nodup then entries.foldlM setEntry .standard else none
  | _ => none

def hasEntries (v : Value) : Bool :=
  match v.untagged with
  | .mapping (_ :: _) => true
  | _ => false

/-- A solver ready to be created. -/
structure Blueprint (α : Type) where
  name : String
  strategy : Strategy
  schedule : Schedule α
  deriving Repr

namespace Blueprint

def readSchedule (s : SolverSection) : Except ParamFault (Schedule Float) :=
  match s.strategy with
  | .bruteForce => if hasEntries s.params then .error (.unexpected s.name) else .ok .standard
  | .anneal =>
    match scheduleOf? s.params with
    | none => .error (.unreadable s.name)
    | some schedule =>
      match schedule.validate with
      | .error e => .error (.invalid s.name e)
      | .ok () => .ok schedule

def ofSection (s : SolverSection) : Except ParamFault (Blueprint Float) := do
  return ⟨s.name, s.strategy, ← readSchedule s⟩

/-- The blueprints in order, or the first fault. -/
def ofSections (solvers : List SolverSection) : Except ParamFault (List (Blueprint Float)) :=
  solvers.mapM ofSection

end Blueprint

end Qubo.Benchmark

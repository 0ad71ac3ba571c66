import Qubo.About
import Qubo.CommandLine.Request

/-!
What the command line program says about itself.
-/
namespace Qubo.CommandLine

def programName : String := "sqaod-bench"

def versionLine : String := s!"{programName} {About.version}"

namespace Switch

/-- How a switch is written: its short form or the room for one, its long form, its value. -/
def form (s : Switch) : String :=
  let short := match s.short? with
    | some c => s!"-{c}, "
    | none => "    "
  let value := match s.valueName? with
    | some name => s!" <{name}>"
    | none => ""
  s!"{short}--{s.long}{value}"

def formWidth : Nat := all.foldl (fun width s => max width s.form.length) 0

/-- The line of a switch, with what it is for in a column of its own. -/
def helpLine (s : Switch) : String :=
  let room := String.ofList (List.replicate (formWidth - s.form.length) ' ')
  s!"  {s.form}{room}  {s.about}"

end Switch

def helpLines : List String :=
  ["Deterministic solver benchmark over random QUBO instances", "",
    s!"Usage: {programName} [OPTIONS]", "", "Options:"] ++ Switch.all.map Switch.helpLine

end Qubo.CommandLine

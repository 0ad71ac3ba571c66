import Qubo.Yaml.Text

/-!
White space between the words of a scalar that may run over several lines, and what is left of
it: blanks within a line stay, a single line break becomes a space, and of several breaks all
but the first stay.
-/
namespace Qubo.Yaml

structure Gap where
  /-- The blanks before the first line break. -/
  blanks : List Char
  breaks : List Char
  /-- The leftmost column of a tab behind a line break. -/
  tab : Option Nat
  column : Nat
  rest : List Char

namespace Gap

def leftmost (column : Nat) : Option Nat → Nat
  | none => column
  | some other => min column other

/-- The white space that goes on behind a line break. -/
def afterBreak (column : Nat) : List Char → Gap
  | [] => ⟨[], [], none, column, []⟩
  | c :: cs =>
    if isBreak c then
      let g := afterBreak 0 cs
      { g with breaks := c :: g.breaks }
    else if c == ' ' then afterBreak (column + 1) cs
    else if c == '\t' then
      let g := afterBreak (column + 1) cs
      { g with tab := some (leftmost column g.tab) }
    else ⟨[], [], none, column, c :: cs⟩

/-- The white space at the start of a text. -/
def read (column : Nat) : List Char → Gap
  | [] => ⟨[], [], none, column, []⟩
  | c :: cs =>
    if isBreak c then
      let g := afterBreak 0 cs
      { g with breaks := c :: g.breaks }
    else if isBlank c then
      let g := read (column + 1) cs
      { g with blanks := c :: g.blanks }
    else ⟨[], [], none, column, c :: cs⟩

/-- What a run of line breaks stands for. -/
def folded : List Char → List Char
  | ['\n'] => [' ']
  | '\n' :: more => more
  | breaks => breaks

/-- What the gap stands for between two words. -/
def text (g : Gap) : List Char := if g.breaks.isEmpty then g.blanks else folded g.breaks

/-- Whether a tab stands in the first columns of a later line. -/
def hasTabBefore (g : Gap) (margin : Nat) : Bool := g.tab.any (· < margin)

end Gap

end Qubo.Yaml

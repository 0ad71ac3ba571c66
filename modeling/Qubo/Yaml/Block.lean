import Qubo.Yaml.Text

/-!
Block scalars: lines set off by their indentation, kept as they are or folded.
-/
namespace Qubo.Yaml

/-- What becomes of the line breaks behind the last line: one stays, none, or all. -/
inductive Chomping where
  | clip
  | strip
  | keep
  deriving DecidableEq, Repr

/-- The header of a block scalar: how it ends, and how far it is indented if that is said. -/
structure BlockHeader where
  chomping : Chomping
  indent : Option Nat

def chompingMark? : Char → Option Chomping
  | '+' => some .keep
  | '-' => some .strip
  | _ => none

def digit? (c : Char) : Option Nat := if c.isDigit then some (c.toNat - 48) else none

/-- The header without the rest of its line. -/
def readHeader : List Char → Except Fault (BlockHeader × List Char)
  | [] => .ok (⟨.clip, none⟩, [])
  | c :: cs =>
    match chompingMark? c, digit? c with
    | some chomping, _ =>
      match cs with
      | d :: rest =>
        match digit? d with
        | some 0 => .error .block
        | some n => .ok (⟨chomping, some n⟩, rest)
        | none => .ok (⟨chomping, none⟩, cs)
      | [] => .ok (⟨chomping, none⟩, [])
    | none, some 0 => .error .block
    | none, some n =>
      match cs with
      | d :: rest =>
        match chompingMark? d with
        | some chomping => .ok (⟨chomping, some n⟩, rest)
        | none => .ok (⟨.clip, some n⟩, cs)
      | [] => .ok (⟨.clip, some n⟩, [])
    | none, none => .ok (⟨.clip, none⟩, c :: cs)

/-- The rest of a line that holds no more than blanks and a comment; its break is left. -/
def skipComment (cs : List Char) : List Char :=
  match cs.dropWhile isBlank with
  | '#' :: rest => rest.dropWhile (!isBreak ·)
  | rest => rest

/-- Empty lines, and the indentation of the line behind them. -/
structure EmptyLines where
  breaks : List Char
  /-- The widest indentation met. -/
  widest : Nat
  column : Nat
  rest : List Char

/-- Reads empty lines. Columns below the indentation, or all if it is not yet known, hold
spaces only. -/
def EmptyLines.read (indent : Option Nat) (column widest : Nat) :
    List Char → Except Fault EmptyLines
  | [] => .ok ⟨[], max widest column, column, []⟩
  | c :: cs =>
    if c == ' ' && indent.all (column < ·) then
      EmptyLines.read indent (column + 1) (max widest (column + 1)) cs
    else if c == '\t' && indent.all (column < ·) then .error .indentation
    else if isBreak c then do
      let more ← EmptyLines.read indent 0 (max widest column) cs
      return { more with breaks := c :: more.breaks }
    else .ok ⟨[], max widest column, column, c :: cs⟩

/-- What joins a line to the one before it: folding turns a single break between two lines that
do not start with a blank into a space, and drops one of several. -/
def joint (folds : Bool) (before : List Char) (empty : List Char) (moreIndented : Bool) :
    List Char :=
  if folds && before.head? == some '\n' && !moreIndented then
    if empty.isEmpty then [' '] else empty
  else before ++ empty

def chomped : Chomping → List Char → List Char → List Char
  | .clip, last, _ => last
  | .strip, _, _ => []
  | .keep, last, empty => last ++ empty

/-- The lines of a block scalar at its indentation. `before` is the break of the last line read
and `indented` whether that line starts with a blank. -/
def blockLines (folds : Bool) (chomping : Chomping) (indent : Nat) :
    Nat → List Char → Bool → EmptyLines → Except Fault (List Char × List Char)
  | 0, _, _, _ => .error .block
  | n + 1, before, indented, empty => do
    match empty.rest with
    | [] => return (chomped chomping before empty.breaks, [])
    | c :: _ =>
      if empty.column ≠ indent then return (chomped chomping before empty.breaks, empty.rest)
      let line := empty.rest.takeWhile (!isBreak ·)
      let rest := empty.rest.dropWhile (!isBreak ·)
      let next ← EmptyLines.read (some indent) (if rest.isEmpty then indent + line.length else 0) 0
        (rest.drop 1)
      let (more, rest) ← blockLines folds chomping indent n (rest.take 1) (isBlank c) next
      return (joint folds before empty.breaks (indented || isBlank c) ++ line ++ more, rest)

/-- Reads a block scalar behind its indicator. `margin` is the least column of its lines. -/
def readBlock (folds : Bool) (margin : Nat) (cs : List Char) :
    Except Fault (List Char × List Char) := do
  let (header, rest) ← readHeader cs
  let rest := skipComment rest
  if !endsLine rest then throw .block
  let given := header.indent.map fun n => (margin - 1) + n
  let empty ← EmptyLines.read given 0 0 (rest.drop 1)
  let indent := given.getD (max empty.widest (max margin 1))
  blockLines folds header.chomping indent (cs.length + 1) [] false empty

end Qubo.Yaml

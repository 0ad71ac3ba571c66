import Qubo.Yaml.Gap

/-!
Scalars without quotes.
-/
namespace Qubo.Yaml

/-- The characters that close or separate the entries of a flow collection. -/
def isFlowMark (c : Char) : Bool :=
  c == ',' || c == '[' || c == ']' || c == '\x7b' || c == '\x7d'

/-- Whether a colon in a flow collection is followed by one of its marks. -/
def meetsFlowMark : List Char → Bool
  | c :: _ => isFlowMark c || c == '?'
  | [] => false

/-- A word, up to white space, to the colon of a key, or in a flow collection to one of its
marks; and the rest. -/
def plainWord (flow : Bool) : List Char → Except Fault (List Char × List Char)
  | [] => .ok ([], [])
  | c :: cs =>
    if isSpace c then .ok ([], c :: cs)
    else if c == ':' && flow && meetsFlowMark cs then .error .indicator
    else if (c == ':' && endsWord cs) || (flow && isFlowMark c) then .ok ([], c :: cs)
    else do
      let (word, rest) ← plainWord flow cs
      return (c :: word, rest)

/-- A scalar without quotes, and where it ends. -/
structure Plain where
  text : List Char
  rest : List Char
  /-- Whether a line has ended behind the last word. -/
  newLine : Bool

/-- Whether no further word can follow. -/
def endsPlain (column : Nat) (cs : List Char) : Bool :=
  isDocumentMarker column cs || cs.head? == some '#'

/-- Words joined by their gaps, as long as later lines reach the margin. -/
def plainFrom (flow : Bool) (margin : Nat) : Nat → Nat → Bool → List Char → Except Fault Plain
  | 0, _, newLine, cs => .ok ⟨[], cs, newLine⟩
  | n + 1, column, newLine, cs => do
    if endsPlain column cs then return ⟨[], cs, newLine⟩
    let (word, rest) ← plainWord flow cs
    let newLine := newLine && word.isEmpty
    if rest.isEmpty || !endsWord rest then return ⟨word, rest, newLine⟩
    let gap := Gap.read (column + word.length) rest
    if gap.hasTabBefore margin then throw .indentation
    let newLine := newLine || !gap.breaks.isEmpty
    if !flow && gap.column < margin then return ⟨word, gap.rest, newLine⟩
    let more ← plainFrom flow margin n gap.column newLine gap.rest
    return { more with
      text := if more.text.isEmpty then word else word ++ gap.text ++ more.text }

/-- Reads a scalar without quotes; `margin` is the least column of its later lines. -/
def Plain.read (flow : Bool) (margin column : Nat) (cs : List Char) : Except Fault Plain :=
  plainFrom flow margin (cs.length + 1) column false cs

end Qubo.Yaml

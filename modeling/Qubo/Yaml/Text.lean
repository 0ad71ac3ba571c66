/-!
The characters of a YAML text: which may occur, which separate words, and which end a line.
-/
namespace Qubo.Yaml

/-- Why a text is refused, by the part of the language that it breaks. -/
inductive Fault where
  | character
  | directive
  | indentation
  | indicator
  | key
  | quoted
  | escape
  | block
  | anchor
  | tag
  | arrangement
  | documents
  | depth
  | number
  | repeatedKey
  deriving DecidableEq, Repr

def Fault.message : Fault → String
  | .character => "a character is not allowed"
  | .directive => "a directive is malformed"
  | .indentation => "a tab stands where indentation is expected"
  | .indicator => "an indicator is not allowed at this place"
  | .key => "a key is not followed by a colon"
  | .quoted => "a quoted scalar is not closed"
  | .escape => "an escape sequence is unknown"
  | .block => "the header of a block scalar is malformed"
  | .anchor => "an anchor is malformed or unknown"
  | .tag => "a tag is malformed or unknown"
  | .arrangement => "the nodes do not fit together"
  | .documents => "there is more than one document"
  | .depth => "collections are nested too deep"
  | .number => "a whole number does not fit 64 bits"
  | .repeatedKey => "a mapping has a key twice"

def lineSeparator : Char := '\u2028'

def paragraphSeparator : Char := '\u2029'

/-- Whether a character may stand in a text at all. -/
def isAllowed (c : Char) : Bool :=
  let n := c.toNat
  n == 0x09 || n == 0x0a || n == 0x0d || (0x20 ≤ n && n ≤ 0x7e) || n == 0x85 ||
    (0xa0 ≤ n && n ≤ 0xfffd) || 0x10000 ≤ n

/-- The text with every end of line as one line feed; the separators of lines and of paragraphs
stay, since they are kept where other breaks are folded. -/
def unifyBreaks : List Char → List Char
  | '\r' :: '\n' :: cs => '\n' :: unifyBreaks cs
  | c :: cs => (if c = '\r' ∨ c = '\u0085' then '\n' else c) :: unifyBreaks cs
  | [] => []

def isBreak (c : Char) : Bool := c == '\n' || c == lineSeparator || c == paragraphSeparator

def isBlank (c : Char) : Bool := c == ' ' || c == '\t'

def isSpace (c : Char) : Bool := isBlank c || isBreak c

def endsWord : List Char → Bool
  | [] => true
  | c :: _ => isSpace c

def endsLine : List Char → Bool
  | [] => true
  | c :: _ => isBreak c

structure Cursor where
  rest : List Char
  line : Nat
  column : Nat
  index : Nat

namespace Cursor

def start (text : List Char) : Cursor := ⟨text, 0, 0, 0⟩

/-- The line and column behind a character. -/
def step (at_ : Nat × Nat) (c : Char) : Nat × Nat :=
  if isBreak c then (at_.1 + 1, 0) else (at_.1, at_.2 + 1)

/-- Moves on to a later place of the same text. -/
def moveTo (p : Cursor) (rest : List Char) : Cursor :=
  let passed := p.rest.take (p.rest.length - rest.length)
  let (line, column) := passed.foldl step (p.line, p.column)
  ⟨rest, line, column, p.index + passed.length⟩

def skip (p : Cursor) (n : Nat) : Cursor := p.moveTo (p.rest.drop n)

end Cursor

/-- Whether a line at its first column starts with one of the two document markers. -/
def isMarker (column : Nat) (mark : Char) : List Char → Bool
  | a :: b :: c :: cs => column == 0 && a == mark && b == mark && c == mark && endsWord cs
  | _ => false

def isDocumentMarker (column : Nat) (cs : List Char) : Bool :=
  isMarker column '-' cs || isMarker column '.' cs

end Qubo.Yaml

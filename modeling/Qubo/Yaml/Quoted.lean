import Qubo.Yaml.Gap

/-!
Scalars in single or in double quotes.
-/
namespace Qubo.Yaml

inductive Quote where
  | single
  | double
  deriving DecidableEq, Repr

def Quote.char : Quote → Char
  | .single => '\x27'
  | .double => '"'

/-- The character that a backslash makes of a letter. -/
def escape? : Char → Option Char
  | '0' => some '\x00'
  | 'a' => some '\x07'
  | 'b' => some '\x08'
  | 't' | '\t' => some '\t'
  | 'n' => some '\n'
  | 'v' => some '\x0b'
  | 'f' => some '\x0c'
  | 'r' => some '\r'
  | 'e' => some '\x1b'
  | ' ' => some ' '
  | '"' => some '"'
  | '/' => some '/'
  | '\\' => some '\\'
  | 'N' => some '\u0085'
  | '_' => some '\u00a0'
  | 'L' => some lineSeparator
  | 'P' => some paragraphSeparator
  | _ => none

def hexDigit? (c : Char) : Option Nat :=
  if '0' ≤ c && c ≤ '9' then some (c.toNat - 48)
  else if 'a' ≤ c && c ≤ 'f' then some (c.toNat - 87)
  else if 'A' ≤ c && c ≤ 'F' then some (c.toNat - 55)
  else none

/-- The number that hexadecimal digits write. -/
def hexNumber? (ds : List Char) : Option Nat :=
  ds.foldlM (fun n c => (hexDigit? c).map (16 * n + ·)) 0

/-- The character with a code written in hexadecimal digits; half a surrogate pair is none. -/
def coded (ds : List Char) : Except Fault Char :=
  match hexNumber? ds with
  | some n => if n.isValidChar then .ok (Char.ofNat n) else .error .escape
  | none => .error .escape

structure QuotedWord where
  text : List Char
  rest : List Char
  /-- Whether the word ends with an escaped line break, which is taken and leaves nothing. -/
  continued : Bool

def QuotedWord.push (c : Char) (w : QuotedWord) : QuotedWord := { w with text := c :: w.text }

/-- A word in single quotes, in which a quote is written twice. -/
def singleWord : List Char → QuotedWord
  | '\x27' :: '\x27' :: cs => (singleWord cs).push '\x27'
  | '\x27' :: cs => ⟨[], '\x27' :: cs, false⟩
  | c :: cs => if isSpace c then ⟨[], c :: cs, false⟩ else (singleWord cs).push c
  | [] => ⟨[], [], false⟩

/-- A word in double quotes. -/
def doubleWord : List Char → Except Fault QuotedWord
  | '"' :: cs => .ok ⟨[], '"' :: cs, false⟩
  | '\\' :: 'x' :: a :: b :: cs => do
    let c ← coded [a, b]
    return (← doubleWord cs).push c
  | '\\' :: 'u' :: a :: b :: c :: d :: cs => do
    let c ← coded [a, b, c, d]
    return (← doubleWord cs).push c
  | '\\' :: 'U' :: a :: b :: c :: d :: e :: f :: g :: h :: cs => do
    let c ← coded [a, b, c, d, e, f, g, h]
    return (← doubleWord cs).push c
  | '\\' :: c :: cs =>
    if isBreak c then .ok ⟨[], cs, true⟩
    else match escape? c with
      | some e => do return (← doubleWord cs).push e
      | none => .error .escape
  | c :: cs =>
    if isSpace c then .ok ⟨[], c :: cs, false⟩
    else do return (← doubleWord cs).push c
  | [] => .ok ⟨[], [], false⟩

def Quote.word : Quote → List Char → Except Fault QuotedWord
  | .single, cs => .ok (singleWord cs)
  | .double, cs => doubleWord cs

/-- The words up to the closing quote, which is taken. -/
def quotedFrom (quote : Quote) : Nat → Nat → List Char → Except Fault (List Char × List Char)
  | 0, _, _ => .error .quoted
  | n + 1, column, cs => do
    if isDocumentMarker column cs || cs.isEmpty then throw .quoted
    let word ← quote.word cs
    match word.rest with
    | [] => throw .quoted
    | c :: rest =>
      if !word.continued && c == quote.char then return (word.text, rest)
      let gap := if word.continued then Gap.afterBreak 0 word.rest else Gap.read 1 word.rest
      let (more, rest) ← quotedFrom quote n gap.column gap.rest
      return (word.text ++ (if word.continued then gap.breaks else gap.text) ++ more, rest)

/-- Reads a scalar behind its opening quote. -/
def Quote.read (quote : Quote) (cs : List Char) : Except Fault (List Char × List Char) :=
  quotedFrom quote (cs.length + 1) 1 cs

end Qubo.Yaml

import Qubo.Yaml.Block
import Qubo.Yaml.Plain
import Qubo.Yaml.Quoted

/-!
The tokens of a YAML text. Indentation becomes explicit: each block collection has a token for
its start and one for its end, and the key of a mapping is marked although only the colon behind
it tells.
-/
namespace Qubo.Yaml

/-- How a scalar is written. -/
inductive Style where
  | plain
  | quoted
  | literal
  | folded
  deriving DecidableEq, Repr

inductive Token where
  | version (major minor : Nat)
  | handle (name replacement : String)
  | documentStart
  | documentEnd
  | blockSequence
  | blockMapping
  | blockEnd
  | flowSequence
  | flowSequenceEnd
  | flowMapping
  | flowMappingEnd
  | blockEntry
  | flowEntry
  | key
  | value
  | reference (name : String)
  | anchor (name : String)
  | tag (handle suffix : String)
  | scalar (style : Style) (text : String)
  deriving DecidableEq, Repr

/-- A place where a key may have started. -/
structure KeyMark where
  /-- The number of tokens before it. -/
  position : Nat
  line : Nat
  column : Nat
  index : Nat
  /-- Whether the block mapping that is open cannot go on otherwise. -/
  required : Bool

/-- How far a colon may be from the start of its key. -/
def maxKeyLength : Nat := 1024

/-- Whether a colon at a place cannot belong to the key any more. -/
def KeyMark.isStale (k : KeyMark) (p : Cursor) : Bool :=
  k.line < p.line || k.index + maxKeyLength < p.index

/-- The tokens read so far and what the next ones depend on. -/
structure Lexing where
  place : Cursor
  tokens : Array Token
  /-- The columns of the open block collections, innermost first. -/
  columns : List Nat
  keyMark : Option KeyMark
  /-- The key marks outside of each open flow collection, innermost first. -/
  outer : List (Option KeyMark)
  /-- Whether a key may start here. -/
  keyAllowed : Bool

namespace Lexing

def start (text : List Char) : Lexing := ⟨.start text, #[], [], none, [], true⟩

def inFlow (s : Lexing) : Bool := !s.outer.isEmpty

/-- The least column of what belongs to the innermost block collection. -/
def margin (s : Lexing) : Nat :=
  match s.columns with
  | [] => 0
  | c :: _ => c + 1

def emit (s : Lexing) (t : Token) : Lexing := { s with tokens := s.tokens.push t }

def moveTo (s : Lexing) (rest : List Char) : Lexing := { s with place := s.place.moveTo rest }

/-- Takes an indicator of some characters. -/
def take (s : Lexing) (n : Nat) (t : Token) : Lexing :=
  { s with place := s.place.skip n, tokens := s.tokens.push t }

def allowKey (s : Lexing) (allowed : Bool) : Lexing := { s with keyAllowed := allowed }

def dropMark (s : Lexing) : Except Fault Lexing :=
  if s.keyMark.any (·.required) then .error .key else .ok { s with keyMark := none }

/-- Marks this place as the possible start of a key. -/
def mark (s : Lexing) : Except Fault Lexing :=
  if s.keyAllowed then do
    let s ← s.dropMark
    let required := !s.inFlow && s.margin == s.place.column + 1
    return { s with
      keyMark := some ⟨s.tokens.size, s.place.line, s.place.column, s.place.index, required⟩ }
  else .ok s

def freshMark (p : Cursor) : Option KeyMark → Except Fault (Option KeyMark)
  | none => .ok none
  | some k => if k.isStale p then if k.required then .error .key else .ok none else .ok (some k)

/-- Gives up the key marks that are too far away by now. -/
def refreshMarks (s : Lexing) : Except Fault Lexing := do
  let keyMark ← freshMark s.place s.keyMark
  let outer ← s.outer.mapM (freshMark s.place)
  return { s with keyMark := keyMark, outer := outer }

/-- Opens a block collection at a column, unless it is open already. -/
def openBlock (s : Lexing) (column position : Nat) (t : Token) : Lexing :=
  if !s.inFlow && s.margin ≤ column then
    { s with
      columns := column :: s.columns
      tokens := s.tokens.insertIdxIfInBounds position t }
  else s

/-- Closes the block collections to which a column does not belong. -/
def closeColumns (belongs : Nat → Bool) : List Nat → Array Token → List Nat × Array Token
  | [], tokens => ([], tokens)
  | c :: cs, tokens =>
    if belongs c then (c :: cs, tokens) else closeColumns belongs cs (tokens.push .blockEnd)

def closeBlocks (s : Lexing) (belongs : Nat → Bool) : Lexing :=
  if s.inFlow then s
  else
    let (columns, tokens) := closeColumns belongs s.columns s.tokens
    { s with columns := columns, tokens := tokens }

def closeAll (s : Lexing) : Lexing := s.closeBlocks fun _ => false

/-- Skips white space and comments. A tab does not count as white space where a key may start in
a block collection, for there it would be indentation. -/
def skipSpace (flow : Bool) : Nat → Bool → List Char → Bool × List Char
  | 0, allowed, cs => (allowed, cs)
  | n + 1, allowed, cs =>
    match cs.dropWhile fun c => c == ' ' || (c == '\t' && (flow || !allowed)) with
    | [] => (allowed, [])
    | c :: rest =>
      if isBreak c then skipSpace flow n (allowed || !flow) rest
      else if c == '#' then skipSpace flow n allowed (rest.dropWhile (!isBreak ·))
      else (allowed, c :: rest)

/-- Skips to the next token. A byte order mark at the very start takes a column. -/
def toNextToken (s : Lexing) : Lexing :=
  let s := if s.place.index = 0 && s.place.rest.head? == some '\ufeff' then
    { s with place := s.place.skip 1 } else s
  let (allowed, rest) := skipSpace s.inFlow (s.place.rest.length + 1) s.keyAllowed s.place.rest
  (s.moveTo rest).allowKey allowed

def documentMarker (s : Lexing) (t : Token) : Except Fault Lexing := do
  let s ← s.closeAll.dropMark
  return (s.allowKey false).take 3 t

def openFlow (s : Lexing) (t : Token) : Except Fault Lexing := do
  let s ← s.mark
  return ({ s with outer := s.keyMark :: s.outer, keyMark := none }.allowKey true).take 1 t

def closeFlow (s : Lexing) (t : Token) : Except Fault Lexing := do
  let s ← s.dropMark
  let s := match s.outer with
    | [] => s
    | k :: ks => { s with keyMark := k, outer := ks }
  return (s.allowKey false).take 1 t

def flowEntry (s : Lexing) : Except Fault Lexing := do
  let s ← s.dropMark
  return (s.allowKey true).take 1 .flowEntry

def blockEntry (s : Lexing) : Except Fault Lexing := do
  if !s.inFlow && !s.keyAllowed then throw .indicator
  let s ← (s.openBlock s.place.column s.tokens.size .blockSequence).dropMark
  return (s.allowKey true).take 1 .blockEntry

def explicitKey (s : Lexing) : Except Fault Lexing := do
  if !s.inFlow && !s.keyAllowed then throw .indicator
  let s ← (s.openBlock s.place.column s.tokens.size .blockMapping).dropMark
  return (s.allowKey !s.inFlow).take 1 .key

def value (s : Lexing) : Except Fault Lexing :=
  match s.keyMark with
  | some k =>
    let s := { s with tokens := s.tokens.insertIdxIfInBounds k.position .key, keyMark := none }
    .ok (((s.openBlock k.column k.position .blockMapping).allowKey false).take 1 .value)
  | none =>
    if !s.inFlow && !s.keyAllowed then .error .indicator
    else
      let s := s.openBlock s.place.column s.tokens.size .blockMapping
      .ok ((s.allowKey !s.inFlow).take 1 .value)

def isNameChar (c : Char) : Bool := c.isAlphanum || c == '_' || c == '-'

/-- Whether the name of an anchor may end here. -/
def endsAnchor : List Char → Bool
  | [] => true
  | c :: _ => isSpace c || "?:,]\x7d%@\x60".toList.contains c

def named (s : Lexing) (token : String → Token) : Except Fault Lexing := do
  let s ← s.mark
  let name := (s.place.rest.drop 1).takeWhile isNameChar
  let rest := (s.place.rest.drop 1).dropWhile isNameChar
  if name.isEmpty || !endsAnchor rest then throw .anchor
  return ((s.allowKey false).moveTo rest).emit (token (String.ofList name))

/-- Whether a character may stand in a tag. Those that close or separate the entries of a flow
collection only may in a tag written in full. -/
def isTagChar (full : Bool) (c : Char) : Bool :=
  isNameChar c || ";/?:@&=+$.!~*'()%".toList.contains c ||
    (full && (c == ',' || c == '[' || c == ']'))

/-- The bytes that the text of a tag stands for, of which some are written as `%` and two
hexadecimal digits. -/
def tagBytes : List Char → Except Fault (List UInt8)
  | '%' :: a :: b :: cs =>
    match hexNumber? [a, b] with
    | some n => do return UInt8.ofNat n :: (← tagBytes cs)
    | none => .error .tag
  | '%' :: _ => .error .tag
  | c :: cs => do return (String.singleton c).toUTF8.toList ++ (← tagBytes cs)
  | [] => .ok []

def tagText (cs : List Char) : Except Fault String := do
  match String.fromUTF8? ⟨(← tagBytes cs).toArray⟩ with
  | some text => return text
  | none => throw .tag

/-- The handle and the suffix of a tag without its exclamation mark, and the rest. -/
def readTag : List Char → Except Fault (String × String × List Char)
  | '<' :: cs => do
    let written := cs.takeWhile (isTagChar true)
    match cs.dropWhile (isTagChar true) with
    | '>' :: rest => if written.isEmpty then throw .tag else return ("", ← tagText written, rest)
    | _ => throw .tag
  | cs => do
    let name := cs.takeWhile isNameChar
    match cs.dropWhile isNameChar with
    | '!' :: more =>
      let written := more.takeWhile (isTagChar false)
      if written.isEmpty then throw .tag
      return (String.ofList ('!' :: name ++ ['!']), ← tagText written,
        more.dropWhile (isTagChar false))
    | _ =>
      let written := cs.takeWhile (isTagChar false)
      if written.isEmpty then return ("", "!", cs)
      return ("!", ← tagText written, cs.dropWhile (isTagChar false))

def tag (s : Lexing) : Except Fault Lexing := do
  let s ← s.mark
  let (handle, suffix, rest) ← readTag (s.place.rest.drop 1)
  if !(endsWord rest || (s.inFlow && rest.head? == some ',')) then throw .tag
  return ((s.allowKey false).moveTo rest).emit (.tag handle suffix)

def blockScalar (s : Lexing) (style : Style) : Except Fault Lexing := do
  let s ← s.dropMark
  let (text, rest) ← readBlock (style == .folded) s.margin (s.place.rest.drop 1)
  return ((s.allowKey true).moveTo rest).emit (.scalar style (String.ofList text))

def quotedScalar (s : Lexing) (quote : Quote) : Except Fault Lexing := do
  let s ← s.mark
  let (text, rest) ← quote.read (s.place.rest.drop 1)
  return ((s.allowKey false).moveTo rest).emit (.scalar .quoted (String.ofList text))

def plainScalar (s : Lexing) : Except Fault Lexing := do
  let s ← s.mark
  let scalar ← Plain.read s.inFlow s.margin s.place.column s.place.rest
  return ((s.allowKey scalar.newLine).moveTo scalar.rest).emit
    (.scalar .plain (String.ofList scalar.text))

/-- A whole number of at most nine digits. -/
def versionNumber (cs : List Char) : Except Fault (Nat × List Char) :=
  match cs.takeWhile Char.isDigit with
  | [] => .error .directive
  | ds =>
    if 9 < ds.length then .error .directive
    else .ok (ds.foldl (fun n c => 10 * n + (c.toNat - 48)) 0, cs.dropWhile Char.isDigit)

def versionDirective (cs : List Char) : Except Fault (Token × List Char) := do
  let (major, rest) ← versionNumber (cs.dropWhile isBlank)
  match rest with
  | '.' :: rest =>
    let (minor, rest) ← versionNumber rest
    return (.version major minor, rest)
  | _ => throw .directive

def handleDirective (cs : List Char) : Except Fault (Token × List Char) := do
  match cs.dropWhile isBlank with
  | '!' :: cs =>
    let name := cs.takeWhile isNameChar
    let (handle, rest) ← match cs.dropWhile isNameChar with
      | '!' :: rest => pure ('!' :: name ++ ['!'], rest)
      | rest => if name.isEmpty then pure (['!'], rest) else throw .directive
    let text := rest.dropWhile isBlank
    if text.length = rest.length then throw .directive
    let written := text.takeWhile (isTagChar true)
    let rest := text.dropWhile (isTagChar true)
    if written.isEmpty || !endsWord rest then throw .directive
    return (.handle (String.ofList handle) (← tagText written), rest)
  | _ => throw .directive

def directive (s : Lexing) : Except Fault Lexing := do
  let s ← s.closeAll.dropMark
  let written := s.place.rest.drop 1
  let name := written.takeWhile isNameChar
  let rest := written.dropWhile isNameChar
  if !endsWord rest then throw .directive
  let (token, rest) ← match String.ofList name with
    | "YAML" => versionDirective rest
    | "TAG" => handleDirective rest
    | _ => throw .directive
  let rest := skipComment rest
  if !endsLine rest then throw .directive
  return ((s.allowKey false).moveTo (rest.drop 1)).emit token

/-- The characters that cannot start a scalar without quotes. -/
def isIndicator (c : Char) : Bool := "-?:,[]\x7b\x7d#&*!|>'\"%@\x60".toList.contains c

/-- Whether a scalar without quotes starts here. -/
def startsPlain (flow : Bool) (c : Char) (cs : List Char) : Bool :=
  (!isSpace c && !isIndicator c) || (c == '-' && !(cs.head?.any isBlank)) ||
    (!flow && (c == '?' || c == ':') && !endsWord cs)

/-- Reads the token at a character, which is followed by others. -/
def token (s : Lexing) (c : Char) (cs : List Char) : Except Fault Lexing :=
  let column := s.place.column
  if column = 0 && c == '%' then s.directive
  else if isMarker column '-' (c :: cs) then s.documentMarker .documentStart
  else if isMarker column '.' (c :: cs) then s.documentMarker .documentEnd
  else if c == '[' then s.openFlow .flowSequence
  else if c == '\x7b' then s.openFlow .flowMapping
  else if c == ']' then s.closeFlow .flowSequenceEnd
  else if c == '\x7d' then s.closeFlow .flowMappingEnd
  else if c == ',' then s.flowEntry
  else if c == '-' && endsWord cs then s.blockEntry
  else if c == '?' && (s.inFlow || endsWord cs) then s.explicitKey
  else if c == ':' && (s.inFlow || endsWord cs) then s.value
  else if c == '*' then s.named .reference
  else if c == '&' then s.named .anchor
  else if c == '!' then s.tag
  else if c == '|' && !s.inFlow then s.blockScalar .literal
  else if c == '>' && !s.inFlow then s.blockScalar .folded
  else if c == '\x27' then s.quotedScalar .single
  else if c == '"' then s.quotedScalar .double
  else if startsPlain s.inFlow c cs then s.plainScalar
  else .error .indicator

/-- Reads tokens to the end of the text. Each takes at least one character. -/
def run : Nat → Lexing → Except Fault Lexing
  | 0, _ => .error .arrangement
  | n + 1, s => do
    let s ← s.toNextToken.refreshMarks
    match s.place.rest with
    | [] => s.closeAll.dropMark
    | c :: cs =>
      let s := s.closeBlocks (· ≤ s.place.column)
      run n (← s.token c cs)

end Lexing

def Token.ofText (text : String) : Except Fault (List Token) := do
  let cs := text.toList
  if !cs.all isAllowed then throw .character
  let cs := unifyBreaks cs
  let s ← Lexing.run (cs.length + 1) (.start cs)
  return s.tokens.toList

end Qubo.Yaml

import Qubo.Json.Value

/-!
Reading JSON text. The reader is strict: no comments, no trailing commas, no leading zeros, no
control characters in strings.
-/
namespace Qubo.Json
open Decimal

/-- The containers that may be open at once. -/
def maxDepth : Nat := 127

def isBlank (c : Char) : Bool := c == ' ' || c == '\t' || c == '\n' || c == '\r'

def skipBlank (cs : List Char) : List Char := cs.dropWhile isBlank

/-- The digits at the start, and the rest. -/
def takeDigits : List Char → List Digit × List Char
  | [] => ([], [])
  | c :: cs =>
    match Digit.ofChar? c with
    | none => ([], c :: cs)
    | some d =>
      let (ds, rest) := takeDigits cs
      (d :: ds, rest)

def readDigits (cs : List Char) : Option (List Digit × List Char) :=
  match takeDigits cs with
  | ([], _) => none
  | found => some found

/-- Digits of which the first is zero only if it stands alone. -/
def readWhole (cs : List Char) : Option (List Digit × List Char) :=
  match readDigits cs with
  | some (d :: ds, rest) => if d = .zero && !ds.isEmpty then none else some (d :: ds, rest)
  | _ => none

def readFraction : List Char → Option (List Digit × List Char)
  | '.' :: cs => readDigits cs
  | cs => some ([], cs)

def readExponentDigits (sign : ExponentSign) (cs : List Char) :
    Option (Option Exponent × List Char) :=
  (readDigits cs).map fun (ds, rest) => (some ⟨sign, ds⟩, rest)

def readExponentSign : List Char → Option (Option Exponent × List Char)
  | '+' :: cs => readExponentDigits .plus cs
  | '-' :: cs => readExponentDigits .minus cs
  | cs => readExponentDigits .bare cs

def readExponent : List Char → Option (Option Exponent × List Char)
  | 'e' :: cs => readExponentSign cs
  | 'E' :: cs => readExponentSign cs
  | cs => some (none, cs)

def readUnsigned (negative : Bool) (cs : List Char) : Option (Numeral × List Char) := do
  let (whole, cs) ← readWhole cs
  let (fraction, cs) ← readFraction cs
  let (exponent, cs) ← readExponent cs
  return (⟨negative, whole, fraction, exponent⟩, cs)

def readNumeral : List Char → Option (Numeral × List Char)
  | '-' :: cs => readUnsigned true cs
  | cs => readUnsigned false cs

/-- What a string is written with: plain characters and 16-bit units. -/
inductive Piece where
  | char (c : Char)
  | unit (u : Nat)

def hexDigit? (c : Char) : Option Nat :=
  let n := c.toNat
  if '0' ≤ c && c ≤ '9' then some (n - 48)
  else if 'a' ≤ c && c ≤ 'f' then some (n - 87)
  else if 'A' ≤ c && c ≤ 'F' then some (n - 55)
  else none

/-- The unit written with four hexadecimal digits. -/
def unit? (a b c d : Char) : Option Nat := do
  return 4096 * (← hexDigit? a) + 256 * (← hexDigit? b) + 16 * (← hexDigit? c) + (← hexDigit? d)

/-- The characters that a backslash makes of a letter. -/
def escape? : Char → Option Char
  | '"' => some '"'
  | '\\' => some '\\'
  | '/' => some '/'
  | 'b' => some '\x08'
  | 'f' => some '\x0c'
  | 'n' => some '\n'
  | 'r' => some '\r'
  | 't' => some '\t'
  | _ => none

/-- The pieces of a string up to its closing quote, which is taken. -/
def readPieces : List Char → Option (List Piece × List Char)
  | [] => none
  | '"' :: cs => some ([], cs)
  | '\\' :: 'u' :: a :: b :: c :: d :: cs => do
    let u ← unit? a b c d
    let (ps, rest) ← readPieces cs
    return (.unit u :: ps, rest)
  | '\\' :: c :: cs => do
    let e ← escape? c
    let (ps, rest) ← readPieces cs
    return (.char e :: ps, rest)
  | c :: cs =>
    if c.toNat < 0x20 then none
    else do
      let (ps, rest) ← readPieces cs
      return (.char c :: ps, rest)

def isHighSurrogate (u : Nat) : Bool := 0xd800 ≤ u && u ≤ 0xdbff

def isLowSurrogate (u : Nat) : Bool := 0xdc00 ≤ u && u ≤ 0xdfff

/-- The text of the pieces; none when half a surrogate pair stands alone. -/
def joinPieces : List Piece → Option (List Char)
  | [] => some []
  | .char c :: ps => (joinPieces ps).map (c :: ·)
  | .unit u :: .unit v :: ps =>
    if isHighSurrogate u then
      if isLowSurrogate v then
        (joinPieces ps).map (Char.ofNat (0x10000 + (u - 0xd800) * 0x400 + (v - 0xdc00)) :: ·)
      else none
    else if isLowSurrogate u then none
    else (joinPieces (.unit v :: ps)).map (Char.ofNat u :: ·)
  | .unit u :: ps =>
    if isHighSurrogate u || isLowSurrogate u then none
    else (joinPieces ps).map (Char.ofNat u :: ·)

def readString (cs : List Char) : Option (Option String × List Char) :=
  (readPieces cs).map fun (ps, rest) => ((joinPieces ps).map String.ofList, rest)

/-- A container at a level, if there is still one left. -/
def heldAt (levels : Nat) (j : Json) : Json := if levels = 0 then .unreadable else j

/-- The object of some fields; it cannot be held if one of the names cannot. -/
def ofNamed (fields : List (Option String × Json)) : Json :=
  match fields.mapM fun (name, v) => name.map (·, v) with
  | some fs => .object fs
  | none => .unreadable

mutual
/-- A value with the rest of the text. The first number bounds the calls, the second counts the
levels of nesting left. -/
def readValue : Nat → Nat → List Char → Option (Json × List Char)
  | 0, _, _ => none
  | n + 1, levels, cs =>
    match skipBlank cs with
    | 'n' :: 'u' :: 'l' :: 'l' :: rest => some (.null, rest)
    | 't' :: 'r' :: 'u' :: 'e' :: rest => some (.bool true, rest)
    | 'f' :: 'a' :: 'l' :: 's' :: 'e' :: rest => some (.bool false, rest)
    | '"' :: rest => do
      let (s, rest) ← readString rest
      return (s.elim .unreadable .string, rest)
    | '[' :: rest =>
      match skipBlank rest with
      | ']' :: rest => some (heldAt levels (.array []), rest)
      | rest => do
        let (items, rest) ← readItems n (levels - 1) rest
        return (heldAt levels (.array items), rest)
    | '\x7b' :: rest =>
      match skipBlank rest with
      | '\x7d' :: rest => some (heldAt levels (.object []), rest)
      | rest => do
        let (fields, rest) ← readFields n (levels - 1) rest
        return (heldAt levels (ofNamed fields), rest)
    | rest => do
      let (numeral, rest) ← readNumeral rest
      return (.number numeral, rest)
def readItems : Nat → Nat → List Char → Option (List Json × List Char)
  | 0, _, _ => none
  | n + 1, levels, cs => do
    let (v, rest) ← readValue n levels cs
    match skipBlank rest with
    | ',' :: rest => do
      let (vs, rest) ← readItems n levels rest
      return (v :: vs, rest)
    | ']' :: rest => return ([v], rest)
    | _ => none
def readFields : Nat → Nat → List Char → Option (List (Option String × Json) × List Char)
  | 0, _, _ => none
  | n + 1, levels, cs =>
    match skipBlank cs with
    | '"' :: rest => do
      let (name, rest) ← readString rest
      match skipBlank rest with
      | ':' :: rest => do
        let (v, rest) ← readValue n levels rest
        match skipBlank rest with
        | ',' :: rest => do
          let (fs, rest) ← readFields n levels rest
          return ((name, v) :: fs, rest)
        | '\x7d' :: rest => return ([(name, v)], rest)
        | _ => none
      | _ => none
    | _ => none
end

/-- The value at the start of a text, and the rest of the text. -/
def readStart (cs : List Char) : Option (Json × List Char) :=
  readValue (2 * cs.length + 2) maxDepth cs

def read? (s : String) : Option Json := do
  let (v, rest) ← readStart s.toList
  if (skipBlank rest).isEmpty then some v else none

end Qubo.Json

import Qubo.Yaml.Text

/-!
What scalars without quotes stand for: nothing, a truth value, a whole number, a float, or else
their own text.
-/
namespace Qubo.Yaml

def isNull (s : String) : Bool := ["null", "Null", "NULL", "~"].contains s

def toBool? (s : String) : Option Bool :=
  if ["true", "True", "TRUE"].contains s then some true
  else if ["false", "False", "FALSE"].contains s then some false
  else none

/-- The value of a digit below a base. -/
def digitIn? (base : Nat) (c : Char) : Option Nat :=
  let d := if c.isDigit then some (c.toNat - 48)
    else if 'a' ≤ c && c ≤ 'z' then some (c.toNat - 87)
    else if 'A' ≤ c && c ≤ 'Z' then some (c.toNat - 55)
    else none
  d.filter (· < base)

/-- The number that one or more digits of a base write. -/
def wholeIn? (base : Nat) (cs : List Char) : Option Nat :=
  if cs.isEmpty then none
  else cs.foldlM (fun n c => (digitIn? base c).map (base * n + ·)) 0

/-- Whether digits start with a zero that does not stand alone; such text is no number. -/
def isPadded (cs : List Char) : Bool :=
  1 < cs.length && cs.head? == some '0' && cs.all Char.isDigit

/-- A whole number without a sign: in base 16, 8 or 2 behind a mark, or decimal. -/
def toWhole? : List Char → Option Nat
  | '0' :: 'x' :: cs => wholeIn? 16 cs
  | '0' :: 'o' :: cs => wholeIn? 8 cs
  | '0' :: 'b' :: cs => wholeIn? 2 cs
  | cs => if isPadded cs then none else wholeIn? 10 cs

/-- A whole number, with a sign or without. -/
def toInt? (s : String) : Option Int :=
  match s.toList with
  | '+' :: cs => (toWhole? cs).map Int.ofNat
  | '-' :: cs => (toWhole? cs).map fun n => -(n : Int)
  | cs => (toWhole? cs).map Int.ofNat

/-- A whole number without a minus sign that fits a 64-bit word. -/
def toWord? (s : String) : Option Nat :=
  match s.toList with
  | '-' :: _ => none
  | _ => (toInt? s).bind fun i => if i.toNat < UInt64.size then some i.toNat else none

/-- The digits of a decimal number and the count of those behind the point. -/
structure Digits where
  significand : Nat
  places : Nat

/-- The digits at the start, added to those before, with how many they are, and the rest. -/
def absorb : Nat → List Char → Nat × Nat × List Char
  | n, [] => (n, 0, [])
  | n, c :: cs =>
    if c.isDigit then
      let (m, count, rest) := absorb (10 * n + (c.toNat - 48)) cs
      (m, count + 1, rest)
    else (n, 0, c :: cs)

/-- The digits before and behind a point, of which one side may be empty. -/
def readDigits (cs : List Char) : Option (Digits × List Char) :=
  let (whole, count, rest) := absorb 0 cs
  match rest with
  | '.' :: rest =>
    let (n, places, rest) := absorb whole rest
    if count + places = 0 then none else some (⟨n, places⟩, rest)
  | rest => if count = 0 then none else some (⟨whole, 0⟩, rest)

/-- A power of ten behind the letter `e`; none where no number follows it. -/
def readExponent : List Char → Option Int
  | [] => some 0
  | e :: cs =>
    if e == 'e' || e == 'E' then
      match cs with
      | '+' :: ds => (wholeIn? 10 ds).map Int.ofNat
      | '-' :: ds => (wholeIn? 10 ds).map fun n => -(n : Int)
      | ds => (wholeIn? 10 ds).map Int.ofNat
    else none

/-- Beyond this power of ten a number is zero or too large for a float, however many digits it
is written with. -/
def exponentBound (d : Digits) : Nat := 400 + d.places + d.significand.log2

/-- The float nearest to a decimal number. -/
def nearest (d : Digits) (exponent : Int) : Float :=
  let shift := exponent - d.places
  if d.significand = 0 then 0.0
  else if exponent.natAbs ≤ exponentBound d then
    if 0 ≤ shift then Float.ofScientific d.significand false shift.natAbs
    else Float.ofScientific d.significand true shift.natAbs
  else if 0 < exponent then 1.0 / 0.0
  else 0.0

/-- A decimal number without a sign; one beyond the range of floats is none. -/
def toMagnitude? (cs : List Char) : Option Float := do
  let (digits, rest) ← readDigits cs
  let x := nearest digits (← readExponent rest)
  if x < 1.0 / 0.0 then some x else none

def isInfinityName (cs : List Char) : Bool := [".inf", ".Inf", ".INF"].contains (String.ofList cs)

def toFloat? (s : String) : Option Float :=
  if [".nan", ".NaN", ".NAN"].contains s then some (0.0 / 0.0)
  else match s.toList with
    | '-' :: cs => if isInfinityName cs then some (-1.0 / 0.0) else (toMagnitude? cs).map (- ·)
    | '+' :: cs => if isInfinityName cs then some (1.0 / 0.0) else toMagnitude? cs
    | cs => if isInfinityName cs then some (1.0 / 0.0) else toMagnitude? cs

/-- Whether text is a sign and padded digits, or padded digits alone. -/
def isPaddedText (s : String) : Bool :=
  match s.toList with
  | '+' :: cs => isPadded cs
  | '-' :: cs => isPadded cs
  | cs => isPadded cs

end Qubo.Yaml

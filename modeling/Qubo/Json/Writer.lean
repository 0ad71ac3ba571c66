import Qubo.Json.Value

/-!
Writing JSON text, in one line or indented by two spaces a level.
-/
namespace Qubo.Json
open Decimal

def numeralChars (n : Numeral) : List Char :=
  (if n.negative then ['-'] else []) ++ text n.whole ++
    (if n.fraction.isEmpty then [] else '.' :: text n.fraction) ++
    match n.exponent with
    | none => []
    | some ⟨.bare, ds⟩ => 'e' :: text ds
    | some ⟨.plus, ds⟩ => 'e' :: '+' :: text ds
    | some ⟨.minus, ds⟩ => 'e' :: '-' :: text ds

def hexChar (n : Nat) : Char := Char.ofNat (if n < 10 then 48 + n else 87 + n)

/-- A character as it stands in a string: quotes, backslashes and control characters escaped. -/
def escapeChar (c : Char) : List Char :=
  if c = '"' then ['\\', '"']
  else if c = '\\' then ['\\', '\\']
  else if c = '\x08' then ['\\', 'b']
  else if c = '\x0c' then ['\\', 'f']
  else if c = '\n' then ['\\', 'n']
  else if c = '\r' then ['\\', 'r']
  else if c = '\t' then ['\\', 't']
  else if c.toNat < 0x20 then
    ['\\', 'u', '0', '0', hexChar (c.toNat / 16), hexChar (c.toNat % 16)]
  else [c]

def stringChars (s : String) : List Char := '"' :: s.toList.flatMap escapeChar ++ ['"']

mutual
/-- The value in one line. -/
def compactChars : Json → List Char
  | .null | .unreadable => ['n', 'u', 'l', 'l']
  | .bool true => ['t', 'r', 'u', 'e']
  | .bool false => ['f', 'a', 'l', 's', 'e']
  | .number n => numeralChars n
  | .string s => stringChars s
  | .array [] => ['[', ']']
  | .array (v :: vs) => '[' :: compactChars v ++ compactItems vs
  | .object [] => ['\x7b', '\x7d']
  | .object ((name, v) :: fs) =>
    '\x7b' :: stringChars name ++ ':' :: compactChars v ++ compactFields fs
def compactItems : List Json → List Char
  | [] => [']']
  | v :: vs => ',' :: compactChars v ++ compactItems vs
def compactFields : List (String × Json) → List Char
  | [] => ['\x7d']
  | (name, v) :: fs => ',' :: stringChars name ++ ':' :: compactChars v ++ compactFields fs
end

/-- A new line at a level of indentation. -/
def newLine (level : Nat) : List Char := '\n' :: List.replicate (2 * level) ' '

mutual
/-- The value with each item and field on a line of its own, inside `level` containers. -/
def prettyChars (level : Nat) : Json → List Char
  | .null | .unreadable => ['n', 'u', 'l', 'l']
  | .bool true => ['t', 'r', 'u', 'e']
  | .bool false => ['f', 'a', 'l', 's', 'e']
  | .number n => numeralChars n
  | .string s => stringChars s
  | .array [] => ['[', ']']
  | .array (v :: vs) =>
    '[' :: newLine (level + 1) ++ prettyChars (level + 1) v ++ prettyItems level vs
  | .object [] => ['\x7b', '\x7d']
  | .object ((name, v) :: fs) =>
    '\x7b' :: newLine (level + 1) ++ stringChars name ++ ':' :: ' ' ::
      prettyChars (level + 1) v ++ prettyFields level fs
def prettyItems (level : Nat) : List Json → List Char
  | [] => newLine level ++ [']']
  | v :: vs => ',' :: newLine (level + 1) ++ prettyChars (level + 1) v ++ prettyItems level vs
def prettyFields (level : Nat) : List (String × Json) → List Char
  | [] => newLine level ++ ['\x7d']
  | (name, v) :: fs =>
    ',' :: newLine (level + 1) ++ stringChars name ++ ':' :: ' ' ::
      prettyChars (level + 1) v ++ prettyFields level fs
end

def compact (j : Json) : String := String.ofList j.compactChars

def pretty (j : Json) : String := String.ofList (j.prettyChars 0)

end Qubo.Json

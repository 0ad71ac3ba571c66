import Qubo.Json.Numeral

/-!
JSON values. Numbers are kept as they are written.
-/
namespace Qubo

inductive Json where
  | null
  | bool (b : Bool)
  | number (n : Json.Numeral)
  | string (s : String)
  | array (items : List Json)
  | object (fields : List (String × Json))
  /-- A value that is well written but cannot be held: text with half a surrogate pair, or
  arrays and objects nested too deep. Readers step over it where they have no use for it. -/
  | unreadable
  deriving Repr

namespace Json

mutual
/-- Whether a value and all its parts can be held, numbers as floats. -/
def isReadable : Json → Bool
  | .unreadable => false
  | .number n => n.toFloat?.isSome
  | .array items => itemsReadable items
  | .object fields => fieldsReadable fields
  | _ => true
def itemsReadable : List Json → Bool
  | [] => true
  | v :: vs => v.isReadable && itemsReadable vs
def fieldsReadable : List (String × Json) → Bool
  | [] => true
  | (_, v) :: fs => v.isReadable && fieldsReadable fs
end

/-- A finite float as a number, and any other as null. -/
def ofFloat (x : Float) : Json :=
  match Numeral.ofFloat? x with
  | some n => .number n
  | none => .null

def ofNat (n : Nat) : Json := .number (.ofNat n)

def ofFloats (xs : List Float) : Json := .array (xs.map ofFloat)

/-- The value of a field; the last one counts when there are several. -/
def field? (j : Json) (name : String) : Option Json :=
  match j with
  | .object fields => (fields.reverse.find? (·.1 == name)).map (·.2)
  | _ => none

end Json

end Qubo

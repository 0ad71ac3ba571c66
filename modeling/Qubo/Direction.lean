import Qubo.Scalar

/-!
The direction of an optimisation: which of two values is better, the best of a list, and the
stable order from best to worst.
-/
namespace Qubo

inductive Direction where
  | minimize
  | maximize
  deriving DecidableEq, Repr

namespace Direction

def all : List Direction := [.minimize, .maximize]

def name : Direction → String
  | .minimize => "minimize"
  | .maximize => "maximize"

def index : Direction → Nat
  | .minimize => 0
  | .maximize => 1

def ofIndex? : Nat → Option Direction
  | 0 => some .minimize
  | 1 => some .maximize
  | _ => none

variable {α : Type}

/-- Turns a value to be optimised into one to be made small. -/
@[inline] def sign [Neg α] : Direction → α → α
  | .minimize, x => x
  | .maximize, x => -x

section Order
variable [LT α] [DecidableLT α]

/-- Better values come first. Values that the order does not relate count as equal. -/
@[specialize] def compare (d : Direction) (a b : α) : Ordering :=
  let natural := if a < b then Ordering.lt else if b < a then Ordering.gt else Ordering.eq
  match d with
  | .minimize => natural
  | .maximize => natural.swap

@[specialize] def isBetter (d : Direction) (a b : α) : Bool := d.compare a b == .lt

/-- Keeps the entry at hand unless the next value beats it. -/
@[specialize] def keepBetter (d : Direction) (kept next : α × Nat) : α × Nat :=
  if d.isBetter next.1 kept.1 then next else kept

/-- The first value that no other value beats, with its position. -/
@[specialize] def bestEntry? (d : Direction) (xs : List α) : Option (α × Nat) :=
  match xs.zipIdx with
  | [] => none
  | e :: es => some (es.foldl d.keepBetter e)

@[specialize] def bestIndex? (d : Direction) (xs : List α) : Option Nat := (d.bestEntry? xs).map (·.2)

@[specialize] def best? (d : Direction) (xs : List α) : Option α := (d.bestEntry? xs).map (·.1)

/-- From best to worst; values that compare equal keep their order. -/
def sort (d : Direction) (xs : List α) : List α := xs.mergeSort fun a b => d.compare a b != .gt

end Order

end Direction

/-- A value compared by its key alone; the tag rides along. -/
structure Keyed (κ τ : Type) where
  key : κ
  tag : τ
  deriving Repr

instance {κ τ : Type} [LT κ] : LT (Keyed κ τ) := ⟨fun a b => a.key < b.key⟩

instance {κ τ : Type} [LT κ] [DecidableLT κ] : DecidableLT (Keyed κ τ) :=
  fun a b => inferInstanceAs (Decidable (a.key < b.key))

end Qubo

import Qubo.Scalar

/-!
The running result of an exhaustive search: the least energy met, and the assignments tied with
it up to the tolerance, in the order they were met, as many as the cap allows.
-/
namespace Qubo.Search

structure Tally (κ α : Type) where
  /-- None until an energy that is not above every bound has been met. -/
  least : Option α
  ties : Array κ
  deriving Repr

namespace Tally
variable {κ α : Type} [Scalar α]

def empty : Tally κ α := ⟨none, #[]⟩

/-- Takes in one candidate: an energy lower by more than the tolerance starts the ties anew,
one within the tolerance joins them while there is room. -/
@[specialize] def offer (cap : Nat) (t : Tally κ α) (candidate : κ × α) : Tally κ α :=
  let (key, e) := candidate
  match t.least with
  | none => if Scalar.isBounded e then ⟨some e, #[key]⟩ else t
  | some least =>
    if e < least - Scalar.tolerance then ⟨some e, #[key]⟩
    else if Scalar.magnitude (e - least) ≤ Scalar.tolerance ∧ t.ties.size < cap then
      { t with ties := t.ties.push key }
    else t

/-- Takes in candidates one after the other. -/
@[specialize] def offerAll (cap : Nat) (t : Tally κ α) (candidates : List (κ × α)) : Tally κ α :=
  candidates.foldl (offer cap) t

end Tally

/-- The ranges of `size` numbers, the last one shorter, that follow one another up to `bound`. -/
def tiles (bound size : Nat) : List (Nat × Nat) :=
  (List.range ((bound + size - 1) / size)).map fun i => (i * size, min ((i + 1) * size) bound)

/-- The numbers from the first up to but not including the second. -/
def span (range : Nat × Nat) : List Nat := List.range' range.1 (range.2 - range.1)

end Qubo.Search

import Qubo.Random.KeyStream
import Qubo.Scalar

/-!
Random draws. A generator is a key with a position in its key stream, and every draw takes
whole words from there: how many never depends on what the caller does with the result.
-/
namespace Qubo.Random

/-- A random generator: the word at `position` is drawn next. -/
structure Generator where
  key : Key
  position : Nat
  deriving DecidableEq, Repr

/-- The generator at the start of the key stream of a seed. -/
def Generator.ofSeed (seed : UInt64) : Generator := ⟨.ofSeed seed, 0⟩

/-- A computation that draws from a generator. -/
abbrev Draw (β : Type) := StateM Generator β

namespace Draw

@[inline] def word : Draw UInt64 := fun g => (g.key.word g.position, { g with position := g.position + 1 })

@[specialize] def many {β : Type} (draw : Draw β) : Nat → Draw (List β)
  | 0, g => ([], g)
  | n + 1, g =>
    let (x, g) := draw g
    let (xs, g) := many draw n g
    (x :: xs, g)

/-- How often a word may be refused before the draw settles for the next one; each word is
taken with a probability of at least one half. -/
def refusals : Nat := 256

/-- The high half of the product of a word and `n`, for the first word whose low half does not
exceed `zone`. -/
def belowFrom (n zone : Nat) : Nat → Draw Nat
  | 0, g =>
    let (v, g) := word g
    (v.toNat * n / UInt64.size, g)
  | k + 1, g =>
    let (v, g) := word g
    let product := v.toNat * n
    if product % UInt64.size ≤ zone then (product / UInt64.size, g) else belowFrom n zone k g

/-- A number below `n`, each equally likely: the low halves up to the largest multiple of `n`
by a power of two that fits a word are taken. -/
def below (n : Nat) : Draw Nat := belowFrom n ((n <<< (63 - n.log2)) - 1) refusals

/-- A number in `[0, 1)` with 52 binary places. -/
@[specialize] def unit {α : Type} [Scalar α] : Draw α := fun g =>
  let (v, g) := word g
  (Scalar.ratio (v >>> 12).toNat (1 <<< 52), g)

/-- A fair coin. -/
def coin : Draw Bool := fun g =>
  let (v, g) := word g
  (v < 0x8000000000000000, g)

/-- A spin of either sign, equally likely. -/
@[specialize] def spin {α : Type} [Scalar α] : Draw α := fun g =>
  let (up, g) := coin g
  (if up then Scalar.one else -Scalar.one, g)

/-- A coefficient in `[-1/2, 1/2)`. -/
@[specialize] def coefficient {α : Type} [Scalar α] : Draw α := fun g =>
  let (u, g) := unit g
  (u - Scalar.half, g)

end Draw

/-- The seeds of the trials of one instance: the first words drawn after its own seed. -/
def trialSeeds (seed : UInt64) (count : Nat) : List UInt64 :=
  (Draw.many Draw.word count (.ofSeed seed)).1

end Qubo.Random

import Qubo.Scalar

/-!
Assignments of binary variables: a list of bytes, one per variable, where 0 and 1 are the two
values. Packing reads variable `i` as bit `i` of a 64-bit word.
-/
namespace Qubo

structure Bits where
  values : List UInt8
  deriving DecidableEq, Repr

namespace Bits

/-- The longest assignment that is packed into a word. -/
def maxPacked : Nat := 63

/-- How many assignments of `n` variables there are: their words are the numbers below. -/
def count (n : Nat) : Nat := 1 <<< n

def zeros (n : Nat) : Bits := ⟨List.replicate n 0⟩

/-- Any value but zero stands for one. -/
def ofValues (values : List UInt8) : Bits := ⟨values.map fun v => if v = 0 then 0 else 1⟩

/-- Variable `i` is bit `i` of the word. -/
def ofPacked (packed n : Nat) : Bits :=
  ⟨(List.range n).map fun i => if packed.testBit i then 1 else 0⟩

/-- A positive spin stands for one, every other value for zero. -/
@[specialize] def ofSpins {α : Type} [Scalar α] (spins : List α) : Bits :=
  ⟨spins.map fun q => if Scalar.zero < q then 1 else 0⟩

def size (b : Bits) : Nat := b.values.length

/-- The word whose bits the values are laid over, each at its own position; none when there
are more than 63 variables. -/
def packed? (b : Bits) : Option Nat :=
  if b.size ≤ maxPacked then
    some (b.values.zipIdx.foldl (fun acc (v, i) => acc ||| (v.toNat <<< i) % UInt64.size) 0)
  else none

@[specialize] def reals {α : Type} [Scalar α] (b : Bits) : List α :=
  b.values.map fun v => ((v.toNat : Nat) : α)

/-- Twice each value less one: 0 becomes −1 and 1 becomes 1. -/
@[specialize] def spins {α : Type} [Scalar α] (b : Bits) : List α :=
  b.values.map fun v => Scalar.two * ((v.toNat : Nat) : α) - Scalar.one

/-- The values one after the other. -/
def text (b : Bits) : String := String.join (b.values.map fun v => toString v.toNat)

/-- Every value is 0 or 1. -/
def IsBinary (b : Bits) : Prop := ∀ v ∈ b.values, v = 0 ∨ v = 1

instance (b : Bits) : Decidable b.IsBinary := inferInstanceAs (Decidable (∀ v ∈ b.values, _))

@[simp] theorem size_zeros (n : Nat) : (zeros n).size = n := by simp [size, zeros]

@[simp] theorem size_ofValues (vs : List UInt8) : (ofValues vs).size = vs.length := by
  simp [size, ofValues]

@[simp] theorem size_ofPacked (p n : Nat) : (ofPacked p n).size = n := by simp [size, ofPacked]

@[simp] theorem size_ofSpins {α : Type} [Scalar α] (qs : List α) :
    (ofSpins qs).size = qs.length := by simp [size, ofSpins]

@[simp] theorem length_reals {α : Type} [Scalar α] (b : Bits) :
    (b.reals : List α).length = b.size := by simp [size, reals]

@[simp] theorem length_spins {α : Type} [Scalar α] (b : Bits) :
    (b.spins : List α).length = b.size := by simp [size, spins]

end Bits

/-- An assignment of the two layers of a bipartite graph. -/
structure BitsPair where
  x0 : Bits
  x1 : Bits
  deriving DecidableEq, Repr

/-- The layers parted by a bar. -/
def BitsPair.text (p : BitsPair) : String := s!"{p.x0.text}|{p.x1.text}"

/-- An assignment for a problem of either graph family. -/
inductive Assignment where
  | dense (x : Bits)
  | bipartite (x : BitsPair)
  deriving DecidableEq, Repr

def Assignment.text : Assignment → String
  | .dense x => x.text
  | .bipartite x => x.text

end Qubo

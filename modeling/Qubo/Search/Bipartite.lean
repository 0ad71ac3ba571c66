import Qubo.Bipartite
import Qubo.Search.Dense

/-!
Exhaustive search over all pairs of assignments of a bipartite problem. A region is a rectangle
of packed words; in it, every word of the second layer is met for each word of the first.
-/
namespace Qubo.Search

/-- Keys are pairs of packed assignments; a region has a range for either layer. -/
abbrev bipartiteFamily (α : Type) : Family where
  Problem := Bipartite.Coefficients α
  Key := Nat × Nat
  Region := (Nat × Nat) × (Nat × Nat)
  Tile := Nat × Nat
  Solution := BitsPair

variable {α : Type} [Scalar α]

/-- The pairs of a rectangle, clipped to the space. What depends on the first layer alone is
computed once for each of its words. -/
@[specialize] def bipartiteCandidates (p : Bipartite.Coefficients α)
    (region : (Nat × Nat) × (Nat × Nat)) : List ((Nat × Nat) × α) :=
  let (n0, n1) := p.size
  let ((begin0, end0), (begin1, end1)) := region
  let second := (span (begin1, min end1 (Bits.count n1))).map fun key =>
    (key, (Bits.ofPacked key n1).reals)
  (span (begin0, min end0 (Bits.count n0))).flatMap fun key0 =>
    let x0 := (Bits.ofPacked key0 n0).reals
    let e0 := Scalar.dot p.b0 x0
    let couplings := p.w.mulVec x0
    second.map fun (key1, x1) =>
      ((key0, key1), e0 + Scalar.dot p.b1 x1 + Scalar.dot x1 couplings)

/-- Rectangles that cover the space: the ranges of the first layer for each of the second. -/
def rectangles (bound0 bound1 : Nat) (tile : Nat × Nat) : List ((Nat × Nat) × (Nat × Nat)) :=
  (tiles bound1 tile.2).flatMap fun range1 =>
    (tiles bound0 tile.1).map fun range0 => (range0, range1)

instance : Enumerable (bipartiteFamily α) α where
  extent p := .bipartite p.b0.length p.b1.length
  check p := do
    p.check
    checkPackable [p.b0.length, p.b1.length]
  signed := Bipartite.Coefficients.signed
  widen tile := (max tile.1 1, max tile.2 1)
  regions p tile := rectangles (Bits.count p.b0.length) (Bits.count p.b1.length) tile
  candidates := bipartiteCandidates
  solution p key := ⟨.ofPacked key.1 p.b0.length, .ofPacked key.2 p.b1.length⟩
  assignment := .bipartite

abbrev BipartiteSession (α : Type) := Session (bipartiteFamily α) α

def BipartiteSession.new : BipartiteSession α := Session.new (256, 256)

end Qubo.Search

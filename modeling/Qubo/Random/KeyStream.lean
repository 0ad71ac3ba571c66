/-!
The ChaCha key stream with twelve rounds, a 64-bit block counter and a zero nonce, read as a
sequence of 64-bit words.
-/
namespace Qubo.Random

/-- The sixteen words that the rounds mix. -/
structure Block where
  (x0 x1 x2 x3 x4 x5 x6 x7 x8 x9 x10 x11 x12 x13 x14 x15 : UInt32)
  deriving DecidableEq, Repr

/-- The 256-bit key. -/
structure Key where
  (k0 k1 k2 k3 k4 k5 k6 k7 : UInt32)
  deriving DecidableEq, Repr

@[inline] def rotateLeft (x n : UInt32) : UInt32 := (x <<< n) ||| (x >>> ((32 - n) % 32))

@[inline] def rotateRight (x n : UInt32) : UInt32 := (x >>> n) ||| (x <<< ((32 - n) % 32))

@[inline] def quarterRound (a b c d : UInt32) : UInt32 × UInt32 × UInt32 × UInt32 :=
  let a := a + b
  let d := rotateLeft (d ^^^ a) 16
  let c := c + d
  let b := rotateLeft (b ^^^ c) 12
  let a := a + b
  let d := rotateLeft (d ^^^ a) 8
  let c := c + d
  let b := rotateLeft (b ^^^ c) 7
  (a, b, c, d)

namespace Block

/-- One round down the columns and one along the diagonals. -/
def doubleRound (s : Block) : Block :=
  let (x0, x4, x8, x12) := quarterRound s.x0 s.x4 s.x8 s.x12
  let (x1, x5, x9, x13) := quarterRound s.x1 s.x5 s.x9 s.x13
  let (x2, x6, x10, x14) := quarterRound s.x2 s.x6 s.x10 s.x14
  let (x3, x7, x11, x15) := quarterRound s.x3 s.x7 s.x11 s.x15
  let (x0, x5, x10, x15) := quarterRound x0 x5 x10 x15
  let (x1, x6, x11, x12) := quarterRound x1 x6 x11 x12
  let (x2, x7, x8, x13) := quarterRound x2 x7 x8 x13
  let (x3, x4, x9, x14) := quarterRound x3 x4 x9 x14
  ⟨x0, x1, x2, x3, x4, x5, x6, x7, x8, x9, x10, x11, x12, x13, x14, x15⟩

def add (a b : Block) : Block :=
  ⟨a.x0 + b.x0, a.x1 + b.x1, a.x2 + b.x2, a.x3 + b.x3, a.x4 + b.x4, a.x5 + b.x5, a.x6 + b.x6,
    a.x7 + b.x7, a.x8 + b.x8, a.x9 + b.x9, a.x10 + b.x10, a.x11 + b.x11, a.x12 + b.x12,
    a.x13 + b.x13, a.x14 + b.x14, a.x15 + b.x15⟩

/-- Twelve rounds, and the block they started from added on. -/
def mix (s : Block) : Block :=
  s.doubleRound.doubleRound.doubleRound.doubleRound.doubleRound.doubleRound.add s

/-- Two words as one, the first being the low half. -/
@[inline] def pair (low high : UInt32) : UInt64 := low.toUInt64 ||| (high.toUInt64 <<< 32)

def word (s : Block) : Nat → UInt64
  | 0 => pair s.x0 s.x1
  | 1 => pair s.x2 s.x3
  | 2 => pair s.x4 s.x5
  | 3 => pair s.x6 s.x7
  | 4 => pair s.x8 s.x9
  | 5 => pair s.x10 s.x11
  | 6 => pair s.x12 s.x13
  | _ => pair s.x14 s.x15

end Block

namespace Key

/-- The block before mixing: four fixed words, the key, the counter and the nonce. -/
def block (k : Key) (counter : UInt64) : Block :=
  ⟨0x61707865, 0x3320646e, 0x79622d32, 0x6b206574, k.k0, k.k1, k.k2, k.k3, k.k4, k.k5, k.k6, k.k7,
    counter.toUInt32, (counter >>> 32).toUInt32, 0, 0⟩

def word (k : Key) (position : Nat) : UInt64 :=
  (k.block (position / 8).toUInt64).mix.word (position % 8)

/-- The next state of the generator that spreads a seed over a key. -/
def spread (s : UInt64) : UInt64 := s * 6364136223846793005 + 11634580027462260723

/-- The word taken from a state: its top bits folded together, rotated to the right by the
topmost five. -/
def spreadWord (s : UInt64) : UInt32 :=
  rotateRight (((s >>> 18) ^^^ s) >>> 27).toUInt32 (s >>> 59).toUInt32

def ofSeed (seed : UInt64) : Key :=
  let s0 := spread seed
  let s1 := spread s0
  let s2 := spread s1
  let s3 := spread s2
  let s4 := spread s3
  let s5 := spread s4
  let s6 := spread s5
  let s7 := spread s6
  ⟨spreadWord s0, spreadWord s1, spreadWord s2, spreadWord s3, spreadWord s4, spreadWord s5,
    spreadWord s6, spreadWord s7⟩

end Key

end Qubo.Random

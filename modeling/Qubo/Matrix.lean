import Qubo.Direction

/-!
Rectangular matrices, stored row after row in one array. Positions are looked up in the array
at `row * cols + col`, so a column past the end of its row reads on in the next one.
-/
namespace Qubo

structure Matrix (α : Type) where
  rows : Nat
  cols : Nat
  data : Array α
  size_eq : data.size = rows * cols

namespace Matrix
variable {α : Type}

/-- The matrix whose entry at each position is given by `f`. -/
@[specialize] def generate (rows cols : Nat) (f : Nat → Nat → α) : Matrix α where
  rows := rows
  cols := cols
  data := Array.ofFn fun i : Fin (rows * cols) => f (i.val / cols) (i.val % cols)
  size_eq := by simp

def empty : Matrix α := ⟨0, 0, #[], rfl⟩

/-- The same value everywhere. -/
def fill (rows cols : Nat) (v : α) : Matrix α :=
  ⟨rows, cols, Array.replicate (rows * cols) v, by simp⟩

/-- None when the number of values is not that of the entries. -/
def ofArray? (rows cols : Nat) (data : Array α) : Option (Matrix α) :=
  if h : data.size = rows * cols then some ⟨rows, cols, data, h⟩ else none

/-- None when two rows differ in length; no rows at all make the empty matrix. -/
def ofRows? (rows : List (List α)) : Option (Matrix α) :=
  let cols := (rows.head?.map List.length).getD 0
  if rows.all (·.length == cols) then ofArray? rows.length cols rows.flatten.toArray else none

def shape (m : Matrix α) : Nat × Nat := (m.rows, m.cols)

def isSquare (m : Matrix α) : Bool := m.rows == m.cols

/-- The entry stored for a position; none past the end of the array. -/
def get? (m : Matrix α) (r c : Nat) : Option α := m.data[r * m.cols + c]?

/-- Replaces the entry stored for a position; none past the end of the array. -/
def set? (m : Matrix α) (r c : Nat) (v : α) : Option (Matrix α) :=
  if h : r * m.cols + c < m.data.size then
    some { m with data := m.data.set (r * m.cols + c) v h, size_eq := by simp [m.size_eq] }
  else none

/-- A row of the matrix; what lies past the end of the array is left out. -/
def row (m : Matrix α) (r : Nat) : List α :=
  (m.data.extract (r * m.cols) (r * m.cols + m.cols)).toList

/-- A row; none when it does not lie in the array as a whole. -/
def row? (m : Matrix α) (r : Nat) : Option (List α) :=
  if r * m.cols + m.cols ≤ m.data.size then some (m.row r) else none

def toRows (m : Matrix α) : List (List α) := (List.range m.rows).map m.row

@[specialize] def map {β : Type} (f : α → β) (m : Matrix α) : Matrix β :=
  { rows := m.rows, cols := m.cols, data := m.data.map f, size_eq := by simp [m.size_eq] }

instance [Neg α] : Neg (Matrix α) := ⟨map fun x => -x⟩

variable [Scalar α]

/-- The entry at a position, zero past the end of the array. -/
@[specialize] def entry (m : Matrix α) (r c : Nat) : α :=
  m.data.getD (r * m.cols + c) Scalar.zero

/-- Replaces an entry; nothing changes past the end of the array. -/
def set (m : Matrix α) (r c : Nat) (v : α) : Matrix α :=
  { m with data := m.data.setIfInBounds (r * m.cols + c) v, size_eq := by simp [m.size_eq] }

@[specialize] def scale (m : Matrix α) (k : α) : Matrix α := m.map (· * k)

@[specialize] def transpose (m : Matrix α) : Matrix α :=
  generate m.cols m.rows fun r c => m.entry c r

/-- The product with a column vector. -/
@[specialize] def mulVec (m : Matrix α) (v : List α) : List α :=
  m.toRows.map fun row => Scalar.dot row v

@[specialize] def rowSums (m : Matrix α) : List α := m.toRows.map Scalar.sum

/-- Column sums, which start from zero and take in one row at a time. -/
@[specialize] def colSums (m : Matrix α) : List α :=
  m.toRows.foldl (List.zipWith (· + ·)) (List.replicate m.cols Scalar.zero)

@[specialize] def sum (m : Matrix α) : α := Scalar.sum m.data.toList

@[specialize] def trace (m : Matrix α) : α :=
  Scalar.sum ((List.range (min m.rows m.cols)).map fun i => m.entry i i)

/-- Writes one value along the diagonal. -/
@[specialize] def setDiagonal (m : Matrix α) (v : α) : Matrix α :=
  generate m.rows m.cols fun r c => if r = c then v else m.entry r c

/-- A square matrix whose mirrored entries differ by no more than `eps`. -/
@[specialize] def isSymmetric (m : Matrix α) (eps : α) : Bool :=
  m.isSquare && (List.range m.rows).all fun r =>
    (List.range' (r + 1) (m.cols - (r + 1))).all fun c =>
      decide (Scalar.magnitude (m.entry r c - m.entry c r) ≤ eps)

/-- The mean of the two entries mirrored at a position off the diagonal, the upper one first. -/
@[specialize] def mirrorMean (m : Matrix α) (r c : Nat) : α :=
  Scalar.half * (m.entry (min r c) (max r c) + m.entry (max r c) (min r c))

/-- Mirrored entries replaced by their mean; a matrix that is not square stays as it is. -/
@[specialize] def symmetrize (m : Matrix α) : Matrix α :=
  if m.isSquare then
    generate m.rows m.cols fun r c => if r = c then m.entry r c else m.mirrorMean r c
  else m

end Matrix

end Qubo

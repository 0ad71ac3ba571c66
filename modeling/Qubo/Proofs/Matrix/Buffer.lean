import Mathlib.Tactic
import Qubo.Proofs.Matrix.Mirrored

/-! Matrices in storage: two dimensions beside one flat buffer, which nothing holds together but the
operations. What they make of one another is a matrix of the library, and every operation on it is
the library's own. -/
namespace Qubo.Matrix
open Checked (Fault)

/-- Dimensions and entries, however many these are. -/
structure Buffer (α : Type) where
  rows : ℕ
  cols : ℕ
  data : Array α

variable {α : Type}

/-- What is stored of a matrix. -/
def buffer (m : Matrix α) : Buffer α := ⟨m.rows, m.cols, m.data⟩

/-- Memory can address every entry. -/
def HasRoom (m : Matrix α) : Prop := m.data.size < capacity

@[simp] theorem rows_buffer (m : Matrix α) : m.buffer.rows = m.rows := rfl

@[simp] theorem cols_buffer (m : Matrix α) : m.buffer.cols = m.cols := rfl

@[simp] theorem data_buffer (m : Matrix α) : m.buffer.data = m.data := rfl

theorem buffer_injective : Function.Injective (buffer : Matrix α → Buffer α) := by
  rintro ⟨rows, cols, data, hsize⟩ ⟨rows', cols', data', hsize'⟩ h
  obtain ⟨rfl, rfl, rfl⟩ := Buffer.mk.inj h
  rfl

namespace Buffer

/-- A result of 64-bit arithmetic. A larger one is past the end of every buffer. -/
def word (n : ℕ) : Except Fault ℕ := if n < UInt64.size then .ok n else .error .outOfRange

/-- Where the entry at a row and a column is stored. -/
def place (b : Buffer α) (r c : ℕ) : Except Fault ℕ := do
  let start ← word (r * b.cols)
  word (start + c)

def get (b : Buffer α) (r c : ℕ) : Except Fault α := do
  let i ← b.place r c
  Checked.demand b.data[i]?

def set (b : Buffer α) (r c : ℕ) (v : α) : Except Fault (Buffer α) := do
  let i ← b.place r c
  if i < b.data.size then return { b with data := b.data.setIfInBounds i v }
  else throw .outOfRange

def row (b : Buffer α) (r : ℕ) : Except Fault (List α) := do
  let start ← word (r * b.cols)
  let stop ← word (start + b.cols)
  if stop ≤ b.data.size then return (b.data.extract start stop).toList else throw .outOfRange

/-- The product of two dimensions, unless it is too large for a word. -/
def checkedProduct (rows cols : ℕ) : Option ℕ :=
  if rows * cols < UInt64.size then some (rows * cols) else none

/-- None when the number of values is not that of the entries. -/
def ofArray? (rows cols : ℕ) (data : Array α) : Option (Buffer α) :=
  if checkedProduct rows cols = some data.size then some ⟨rows, cols, data⟩ else none

/-- None when two rows differ in length. -/
def ofRows? (rows : List (List α)) : Option (Buffer α) :=
  let cols := (rows.head?.map List.length).getD 0
  if rows.any (·.length != cols) then none else some ⟨rows.length, cols, rows.flatten.toArray⟩

section Arithmetic
variable [Scalar α]

/-- Zeros, if there is room for them. -/
def zeros (rows cols : ℕ) : Except Fault (Buffer α) :=
  if rows * cols < capacity then .ok ⟨rows, cols, Array.replicate (rows * cols) Scalar.zero⟩
  else .error .capacity

def neg (b : Buffer α) : Buffer α := { b with data := b.data.map fun v => -v }

def scale (b : Buffer α) (k : α) : Buffer α := { b with data := b.data.map (· * k) }

def transpose (b : Buffer α) : Except Fault (Buffer α) := do
  let out ← zeros b.cols b.rows
  (List.range b.rows).foldlM (fun out r => (List.range b.cols).foldlM (fun out c => do
    let v ← b.get r c
    out.set c r v) out) out

def setDiagonal (b : Buffer α) (v : α) : Except Fault (Buffer α) :=
  (List.range (min b.rows b.cols)).foldlM (fun out i => out.set i i v) b

def symmetrize (b : Buffer α) : Except Fault (Buffer α) :=
  if b.rows ≠ b.cols then return b
  else (List.range b.rows).foldlM (fun out r =>
    (List.range' (r + 1) (b.cols - (r + 1))).foldlM (fun out c => do
      let upper ← b.get r c
      let lower ← b.get c r
      let mean := Scalar.half * (upper + lower)
      let out ← out.set r c mean
      out.set c r mean) out) b

def mulVec (b : Buffer α) (v : List α) : Except Fault (List α) :=
  (List.range b.rows).mapM fun r => return Scalar.dot (← b.row r) v

end Arithmetic

section Making
variable {rows cols : ℕ} {data : Array α} {b : Buffer α} {m : Matrix α}

theorem ofArray?_eq_some_iff : ofArray? rows cols data = some b ↔
    b = ⟨rows, cols, data⟩ ∧ data.size = rows * cols ∧ data.size < UInt64.size := by
  unfold ofArray? checkedProduct
  constructor
  · intro h
    split_ifs at h with hword hproduct
    · have hsize : data.size = rows * cols := (Option.some.inj hproduct).symm
      exact ⟨(Option.some.inj h).symm, hsize, hsize ▸ hword⟩
    · contradiction
  · rintro ⟨rfl, hsize, hword⟩
    rw [← hsize, if_pos hword, if_pos rfl]

theorem ofArray?_buffer (hroom : m.HasRoom) :
    ofArray? rows cols data = some m.buffer ↔ Matrix.ofArray? rows cols data = some m := by
  rw [ofArray?_eq_some_iff, Matrix.ofArray?]
  constructor
  · rintro ⟨hb, hsize, -⟩
    rw [dif_pos hsize]
    exact congrArg some (buffer_injective hb.symm)
  · intro h
    split_ifs at h with hsize
    obtain rfl := Option.some.inj h
    exact ⟨rfl, hsize, hroom.trans_le (by decide)⟩

/-- As many values as the rows have together. -/
theorem length_flatten_of_forall {rows : List (List α)}
    (h : ∀ row ∈ rows, row.length = cols) : rows.flatten.length = rows.length * cols := by
  rw [List.length_flatten, List.map_congr_left h, List.map_const', List.sum_replicate, smul_eq_mul]

theorem ofRows?_eq (rows : List (List α)) :
    ofRows? rows = (Matrix.ofRows? rows).map Matrix.buffer := by
  unfold ofRows? Matrix.ofRows?
  generalize (rows.head?.map List.length).getD 0 = cols
  by_cases heven : ∀ row ∈ rows, row.length = cols
  · have hany : rows.any (·.length != cols) = false := by simpa using heven
    have hall : rows.all (·.length == cols) = true := by simpa using heven
    have hsize : rows.flatten.toArray.size = rows.length * cols := length_flatten_of_forall heven
    simp only [hany, hall, Bool.false_eq_true, if_false, if_true, Matrix.ofArray?, dif_pos hsize]
    rfl
  · have hany : rows.any (·.length != cols) = true := by simpa using heven
    have hall : rows.all (·.length == cols) = false := by simpa using heven
    simp only [hany, hall, Bool.false_eq_true, if_false, if_true]
    rfl

theorem hasRoom_fill {v : α} : (fill rows cols v).HasRoom ↔ rows * cols < capacity := by
  simp [HasRoom, fill]

theorem zeros_eq_ok_iff [Scalar α] : zeros rows cols = .ok b ↔
    b = (fill rows cols (Scalar.zero : α)).buffer ∧ (fill rows cols (Scalar.zero : α)).HasRoom := by
  rw [hasRoom_fill, zeros]
  constructor
  · intro h
    split_ifs at h with hroom
    exact ⟨(Except.ok.inj h).symm, hroom⟩
  · rintro ⟨rfl, hroom⟩
    exact if_pos hroom

end Making

section Words
variable {β : Type} {b : Buffer α} {m m' : Matrix α} {r c : ℕ}

/-- A number that is too large for a word is refused here, if what follows refuses it anyway. -/
theorem word_bind {n : ℕ} {f : ℕ → Except Fault β}
    (hf : UInt64.size ≤ n → f n = .error .outOfRange) : word n >>= f = f n := by
  unfold word
  split_ifs with hn
  · rfl
  · exact (hf (not_lt.mp hn)).symm

theorem word_of_le {n : ℕ} (hn : UInt64.size ≤ n) : word n = .error .outOfRange :=
  if_neg (not_lt.mpr hn)

theorem place_eq (b : Buffer α) (r c : ℕ) : b.place r c = word (r * b.cols + c) :=
  word_bind fun hstart => word_of_le (Nat.le_add_right_of_le hstart)

variable (hroom : m.HasRoom)
include hroom

theorem size_lt_of_word {n : ℕ} (hn : UInt64.size ≤ n) : m.data.size < n := by
  have hcapacity : capacity ≤ UInt64.size := by decide
  exact (hroom.trans_le hcapacity).trans_le hn

theorem get_buffer (r c : ℕ) : m.buffer.get r c = m.readAt r c := by
  rw [get, place_eq, word_bind fun hi => ?_]
  · rfl
  · have hnone : m.buffer.data[r * m.cols + c]? = none :=
      Array.getElem?_eq_none (size_lt_of_word hroom hi).le
    rw [cols_buffer, hnone]
    rfl

theorem set_buffer (r c : ℕ) (v : α) :
    m.buffer.set r c v = (m.writeAt r c v).map Matrix.buffer := by
  rw [set, place_eq, word_bind fun hi => if_neg (size_lt_of_word hroom hi).not_gt,
    cols_buffer, data_buffer, writeAt, set?, Array.setIfInBounds]
  split_ifs <;> rfl

theorem row_buffer (r : ℕ) : m.buffer.row r = m.rowAt r := by
  rw [row, word_bind fun hstart => ?_, word_bind fun hstop => ?_, cols_buffer, data_buffer, rowAt,
    row?]
  · split_ifs <;> rfl
  · exact if_neg (size_lt_of_word hroom hstop).not_ge
  · rw [word_of_le (Nat.le_add_right_of_le hstart)]
    rfl

end Words

section Loops
variable {β : Type} {m m' : Matrix α}

/-- Wherever a matrix can be written, so can what is stored of it. -/
theorem set_along {r c : ℕ} {v : α} (hroom : m.HasRoom) (h : m.writeAt r c v = .ok m') :
    m.buffer.set r c v = .ok m'.buffer ∧ m'.HasRoom := by
  refine ⟨by rw [set_buffer hroom, h]; rfl, ?_⟩
  unfold writeAt set? at h
  split_ifs at h
  · obtain rfl := Except.ok.inj h
    simpa [HasRoom] using hroom
  · cases h

variable [Scalar α] (hroom : m.HasRoom)
include hroom

theorem zeros_along : zeros m.cols m.rows = .ok (fill m.cols m.rows (Scalar.zero : α)).buffer ∧
    (fill m.cols m.rows (Scalar.zero : α)).HasRoom := by
  have hfill : (fill m.cols m.rows (Scalar.zero : α)).HasRoom := by
    rwa [hasRoom_fill, mul_comm, ← m.size_eq]
  exact ⟨zeros_eq_ok_iff.mpr ⟨rfl, hfill⟩, hfill⟩

theorem transpose_buffer : m.buffer.transpose = .ok m.transpose.buffer := by
  obtain ⟨hzeros, hzerosRoom⟩ := zeros_along hroom
  rw [transpose, rows_buffer, cols_buffer, hzeros]
  refine (Result.foldlM_along (fun q q' r hq hrow => ?_) hzerosRoom m.transposeAt_eq).1
  refine Result.foldlM_along (fun q q' c hq hentry => ?_) hq hrow
  obtain ⟨v, hread, hwrite⟩ := Result.bind_eq_ok_iff.mp hentry
  rw [get_buffer hroom, hread]
  exact set_along hq hwrite

theorem setDiagonal_buffer (v : α) : m.buffer.setDiagonal v = .ok (m.setDiagonal v).buffer := by
  refine (Result.foldlM_along (I := HasRoom) (fun q q' i hq hwrite => ?_) hroom
    (m.setDiagonalAt_eq v)).1
  exact set_along hq hwrite

theorem symmetrize_buffer : m.buffer.symmetrize = .ok m.symmetrize.buffer := by
  have hloops := m.symmetrizeAt_eq
  rw [symmetrizeAt] at hloops
  rw [symmetrize, rows_buffer, cols_buffer]
  by_cases hsq : m.rows = m.cols
  · have hsquare : m.isSquare = true := by simpa [isSquare] using hsq
    rw [hsquare, Bool.not_true, if_neg Bool.false_ne_true] at hloops
    obtain ⟨⟨q, u⟩, hwritten, hq⟩ := Result.bind_eq_ok_iff.mp hloops
    obtain rfl : q = m.symmetrize := Except.ok.inj hq
    rw [if_neg (not_not.mpr hsq), ← hsq]
    refine (Result.foldlM_along (g := fun t : Matrix α × Unit => t.1.buffer)
      (I := fun t => t.1.HasRoom) (fun t t' r ht hrow => ?_) (s := (m, ())) hroom hwritten).1
    refine Result.foldlM_along (g := fun t : Matrix α × Unit => t.1.buffer)
      (I := fun t => t.1.HasRoom) (fun t t' c ht hpair => ?_) ht hrow
    simp only [meanAt, Result.bind_eq_ok_iff] at hpair
    obtain ⟨⟨mean, u⟩, ⟨upper, hupper, lower, hlower, hmean⟩, q, hwrite, q', hwrite', ht'⟩ := hpair
    obtain ⟨rfl, -⟩ := Prod.mk.inj (Except.ok.inj hmean)
    obtain rfl := Except.ok.inj ht'
    obtain ⟨hset, hq⟩ := set_along ht hwrite
    rw [get_buffer hroom, get_buffer hroom, hupper, hlower]
    simp only [bind, Except.bind, hset]
    exact set_along hq hwrite'
  · rw [if_pos hsq, symmetrize_of_ne hsq]
    rfl

theorem mulVec_buffer (v : List α) : m.buffer.mulVec v = .ok (m.mulVec v) := by
  rw [mulVec, rows_buffer]
  simp only [row_buffer hroom]
  exact m.mulVecAt_eq v

end Loops

end Buffer

end Qubo.Matrix

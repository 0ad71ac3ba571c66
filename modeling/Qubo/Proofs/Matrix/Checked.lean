import Mathlib.Tactic
import Qubo.Proofs.Checked
import Qubo.Proofs.Matrix

/-! Matrices read and written one position at a time, with a fault for every position past the end
of the array: no operation on a matrix reaches one. -/
namespace Qubo.Matrix
open Checked (Fault)
variable {α : Type}

def readAt (m : Matrix α) (r c : ℕ) : Except Fault α := Checked.demand (m.get? r c)

def writeAt (m : Matrix α) (r c : ℕ) (v : α) : Except Fault (Matrix α) :=
  Checked.demand (m.set? r c v)

def rowAt (m : Matrix α) (r : ℕ) : Except Fault (List α) := Checked.demand (m.row? r)

theorem rowAt_eq (m : Matrix α) {r : ℕ} (hr : r < m.rows) : m.rowAt r = .ok (m.row r) := by
  have hi : r * m.cols + m.cols ≤ m.data.size := by
    rw [m.size_eq, ← Nat.succ_mul]
    exact Nat.mul_le_mul_right _ hr
  exact Checked.demand_eq (if_pos hi)

theorem writeAt_eq (m : Matrix α) (v : α) {r c : ℕ} (hr : r < m.rows) (hc : c < m.cols) :
    m.writeAt r c v = .ok (m.set r c v) := by
  have hi := m.index_lt_size hr hc
  refine Checked.demand_eq ((dif_pos hi).trans (congrArg some ?_))
  simp only [set, Array.setIfInBounds, dif_pos hi]

variable [Scalar α]

theorem readAt_eq (m : Matrix α) {r c : ℕ} (hr : r < m.rows) (hc : c < m.cols) :
    m.readAt r c = .ok (m.entry r c) :=
  Checked.demand_eq (getElem?_data m hr hc)

/-- More entries than this have no address. -/
def capacity : ℕ := 2 ^ 60

/-- Zeros, if there is room for them. -/
def allocate (rows cols : ℕ) : Except Fault (Matrix α) :=
  if rows * cols < capacity then .ok (fill rows cols Scalar.zero) else .error .capacity

section Loops
variable {σ : Type}

/-- Writes rows from the first to the last, each from left to right, with values that come one
after another from a state. -/
def writeRows (next : ℕ → σ → Except Fault (α × σ)) (m n : ℕ) (q : Matrix α) (s : σ) :
    Except Fault (Matrix α × σ) :=
  (List.range m).foldlM (fun t r => (List.range n).foldlM (fun t c => do
    let (v, s) ← next c t.2
    let q ← t.1.writeAt r c v
    return (q, s)) t) (q, s)

/-- What has been written when `k` values have been taken from the state. -/
private structure Written (m n : ℕ) (value : ℕ → α) (state : ℕ → σ) (k : ℕ)
    (t : Matrix α × σ) : Prop where
  rows : t.1.rows = m
  cols : t.1.cols = n
  state : t.2 = state k
  data : ∀ i < k, t.1.data[i]? = some (value i)

/-- Writing every position of a matrix leaves nothing of what it held. -/
theorem writeRows_eq {f : ℕ → σ → Except Fault (α × σ)} {m n : ℕ} (value : ℕ → α) (state : ℕ → σ)
    (hf : ∀ r < m, ∀ c < n, f c (state (r * n + c)) =
      .ok (value (r * n + c), state (r * n + c + 1)))
    {q : Matrix α} (hrows : q.rows = m) (hcols : q.cols = n) :
    writeRows f m n q (state 0) =
      .ok (generate m n fun r c => value (r * n + c), state (m * n)) := by
  have hrow (r : ℕ) (hr : r < m) (t : Matrix α × σ) (ht : Written m n value state (r * n) t) :
      ∃ t', (List.range n).foldlM (fun t c => do
        let (v, s) ← f c t.2
        let q ← t.1.writeAt r c v
        return (q, s)) t = .ok t' ∧ Written m n value state ((r + 1) * n) t' := by
    rw [Nat.succ_mul]
    refine Result.exists_foldlM_range_eq_ok (I := fun c => Written m n value state (r * n + c))
      (fun c hc t ht => ?_) ht
    obtain ⟨q, s⟩ := t
    obtain rfl : s = state (r * n + c) := ht.state
    have hr' : r < q.rows := ht.rows ▸ hr
    have hc' : c < q.cols := ht.cols ▸ hc
    refine ⟨(q.set r c (value (r * n + c)), state (r * n + c + 1)), ?_, ht.rows, ht.cols, rfl, ?_⟩
    · simp only [hf r hr c hc, q.writeAt_eq _ hr' hc', bind, Except.bind, pure, Except.pure]
    · intro i hi
      have hcols : q.cols = n := ht.cols
      have hsize := q.index_lt_size hr' hc'
      have hset : (q.set r c (value (r * n + c))).data =
          q.data.setIfInBounds (r * n + c) (value (r * n + c)) := by
        show q.data.setIfInBounds (r * q.cols + c) _ = _
        rw [hcols]
      rw [hset]
      by_cases hlast : i = r * n + c
      · rw [hlast, Array.getElem?_setIfInBounds_self_of_lt (hcols ▸ hsize)]
      · rw [Array.getElem?_setIfInBounds_ne (Ne.symm hlast)]
        exact ht.data i (by omega)
  obtain ⟨t, ht, hwritten⟩ := Result.exists_foldlM_range_eq_ok
    (I := fun r => Written m n value state (r * n)) hrow
    (s := (q, state 0)) ⟨hrows, hcols, by rw [Nat.zero_mul], fun i hi => by omega⟩
  refine ht.trans (congrArg Except.ok (Prod.ext (ext_entry hwritten.rows hwritten.cols ?_) ?_))
  · intro r hr c hc
    rw [hwritten.rows] at hr
    rw [hwritten.cols] at hc
    rw [entry_generate _ hr hc, entry, hwritten.cols, Array.getD_eq_getD_getElem?,
      hwritten.data _ (index_lt hr hc), Option.getD_some]
  · exact hwritten.state

/-- Draws that are written where they are made, and draws that are made beforehand. -/
theorem writeRows_draw (draw : Random.Draw α) {m n : ℕ} {q : Matrix α} (hrows : q.rows = m)
    (hcols : q.cols = n) (g : Random.Generator) :
    writeRows (fun _ g => .ok (draw g)) m n q g =
      .ok (generate m n fun r c => (draw.many (m * n) g).1.toArray.getD (r * n + c) Scalar.zero,
        (draw.many (m * n) g).2) := by
  have hwritten := writeRows_eq (f := fun _ g => .ok (draw g)) (fun i => draw.numbered i g)
    (fun i => draw.after i g) (fun r _ c _ => by rw [draw.after_succ]; rfl) hrows hcols
  refine hwritten.trans (congrArg Except.ok (Prod.ext ?_ ?_))
  · exact generate_congr fun r hr c hc => (draw.getD_many (index_lt hr hc) g _).symm
  · rw [draw.many_eq]

/-- Columns become rows, one entry after another. -/
def transposeAt (m : Matrix α) : Except Fault (Matrix α) :=
  (List.range m.rows).foldlM (fun out r => (List.range m.cols).foldlM (fun out c => do
    let v ← m.readAt r c
    out.writeAt c r v) out) (fill m.cols m.rows Scalar.zero)

/-- What has been transposed before the entry at a row and a column. -/
private structure Transposed (m : Matrix α) (r c : ℕ) (out : Matrix α) : Prop where
  rows : out.rows = m.cols
  cols : out.cols = m.rows
  entry : ∀ r' < m.rows, ∀ c' < m.cols, r' < r ∨ r' = r ∧ c' < c →
    out.entry c' r' = m.entry r' c'

theorem transposeAt_eq (m : Matrix α) : m.transposeAt = .ok m.transpose := by
  have hrow (r : ℕ) (hr : r < m.rows) (out : Matrix α) (hout : Transposed m r 0 out) :
      ∃ out', (List.range m.cols).foldlM (fun out c => do
        let v ← m.readAt r c
        out.writeAt c r v) out = .ok out' ∧ Transposed m (r + 1) 0 out' := by
    have hentry (c : ℕ) (hc : c < m.cols) (out : Matrix α) (hout : Transposed m r c out) :
        ∃ out', (do
          let v ← m.readAt r c
          out.writeAt c r v) = .ok out' ∧ Transposed m r (c + 1) out' := by
      have hrow : c < out.rows := hout.rows ▸ hc
      have hcol : r < out.cols := hout.cols ▸ hr
      refine ⟨out.set c r (m.entry r c), ?_, hout.rows, hout.cols, fun r' hr' c' hc' h => ?_⟩
      · rw [m.readAt_eq hr hc]
        exact out.writeAt_eq _ hrow hcol
      · rw [out.entry_set _ hrow hcol (hout.rows ▸ hc') (hout.cols ▸ hr')]
        split_ifs with hhere
        · rw [hhere.1, hhere.2]
        · exact hout.entry r' hr' c' hc' (by omega)
    obtain ⟨out', hloop, hout'⟩ :=
      Result.exists_foldlM_range_eq_ok (I := Transposed m r) hentry hout
    exact ⟨out', hloop, hout'.rows, hout'.cols,
      fun r' hr' c' hc' h => hout'.entry r' hr' c' hc' (by omega)⟩
  obtain ⟨out, hloop, hout⟩ := Result.exists_foldlM_range_eq_ok
    (I := fun r => Transposed m r 0) hrow (s := fill m.cols m.rows Scalar.zero)
    ⟨rfl, rfl, fun r' _ c' _ h => by omega⟩
  refine hloop.trans (congrArg Except.ok (ext_entry hout.rows hout.cols fun c hc r hr => ?_))
  rw [hout.rows] at hc
  rw [hout.cols] at hr
  rw [hout.entry r hr c hc (Or.inl hr), transpose, entry_generate _ hc hr]

def setDiagonalAt (m : Matrix α) (v : α) : Except Fault (Matrix α) :=
  (List.range (min m.rows m.cols)).foldlM (fun out i => out.writeAt i i v) m

/-- What the diagonal has become before a position. -/
private structure Overwritten (m : Matrix α) (v : α) (k : ℕ) (out : Matrix α) : Prop where
  rows : out.rows = m.rows
  cols : out.cols = m.cols
  entry : ∀ r < m.rows, ∀ c < m.cols, out.entry r c = if r = c ∧ r < k then v else m.entry r c

theorem setDiagonalAt_eq (m : Matrix α) (v : α) : m.setDiagonalAt v = .ok (m.setDiagonal v) := by
  have hentry (k : ℕ) (hk : k < min m.rows m.cols) (out : Matrix α) (hout : Overwritten m v k out) :
      ∃ out', out.writeAt k k v = .ok out' ∧ Overwritten m v (k + 1) out' := by
    have hrow : k < out.rows := hout.rows ▸ (lt_min_iff.mp hk).1
    have hcol : k < out.cols := hout.cols ▸ (lt_min_iff.mp hk).2
    refine ⟨out.set k k v, out.writeAt_eq v hrow hcol, hout.rows, hout.cols,
      fun r hr c hc => ?_⟩
    rw [out.entry_set v hrow hcol (hout.rows ▸ hr) (hout.cols ▸ hc), hout.entry r hr c hc]
    split_ifs <;> first | rfl | omega
  obtain ⟨out, hloop, hout⟩ := Result.exists_foldlM_range_eq_ok (I := Overwritten m v) hentry
    (s := m) ⟨rfl, rfl, by simp⟩
  refine hloop.trans (congrArg Except.ok (ext_entry hout.rows hout.cols fun r hr c hc => ?_))
  rw [hout.rows] at hr
  rw [hout.cols] at hc
  rw [hout.entry r hr c hc, m.entry_setDiagonal v hr hc]
  exact if_congr (by omega) rfl rfl

/-- The product with a column vector, row by row. -/
def mulVecAt (m : Matrix α) (v : List α) : Except Fault (List α) :=
  (List.range m.rows).mapM fun r => return Scalar.dot (← m.rowAt r) v

theorem mulVecAt_eq (m : Matrix α) (v : List α) : m.mulVecAt v = .ok (m.mulVec v) := by
  rw [mulVec, toRows, List.map_map]
  refine Result.mapM_eq_ok fun r hr => ?_
  rw [m.rowAt_eq (List.mem_range.mp hr)]
  rfl

def rowSumsAt (m : Matrix α) : Except Fault (List α) :=
  (List.range m.rows).mapM fun r => return Scalar.sum (← m.rowAt r)

theorem rowSumsAt_eq (m : Matrix α) : m.rowSumsAt = .ok m.rowSums := by
  rw [rowSums, toRows, List.map_map]
  refine Result.mapM_eq_ok fun r hr => ?_
  rw [m.rowAt_eq (List.mem_range.mp hr)]
  rfl

def colSumsAt (m : Matrix α) : Except Fault (List α) :=
  (List.range m.rows).foldlM (fun sums r => return List.zipWith (· + ·) sums (← m.rowAt r))
    (List.replicate m.cols Scalar.zero)

theorem colSumsAt_eq (m : Matrix α) : m.colSumsAt = .ok m.colSums := by
  rw [colSums, toRows, List.foldl_map]
  refine Result.foldlM_eq_ok (fun sums r hr => ?_) _
  rw [m.rowAt_eq (List.mem_range.mp hr)]
  rfl

def traceAt (m : Matrix α) : Except Fault α := do
  return Scalar.sum (← (List.range (min m.rows m.cols)).mapM fun i => m.readAt i i)

theorem traceAt_eq (m : Matrix α) : m.traceAt = .ok m.trace := by
  have hdiagonal : (List.range (min m.rows m.cols)).mapM (fun i => m.readAt i i) =
      .ok ((List.range (min m.rows m.cols)).map fun i => m.entry i i) :=
    Result.mapM_eq_ok fun i hi => by
      have hi := lt_min_iff.mp (List.mem_range.mp hi)
      exact m.readAt_eq hi.1 hi.2
  rw [traceAt, hdiagonal]
  rfl

/-- Whether a square matrix has mirrored entries within `eps` of each other. -/
def isSymmetricAt (m : Matrix α) (eps : α) : Except Fault Bool :=
  if !m.isSquare then return false
  else (List.range m.rows).allM fun r =>
    (List.range' (r + 1) (m.cols - (r + 1))).allM fun c => do
      let upper ← m.readAt r c
      let lower ← m.readAt c r
      return decide (Scalar.magnitude (upper - lower) ≤ eps)

theorem isSymmetricAt_eq (m : Matrix α) (eps : α) :
    m.isSymmetricAt eps = .ok (m.isSymmetric eps) := by
  rw [isSymmetricAt, isSymmetric]
  cases hsquare : m.isSquare with
  | false => rfl
  | true =>
    have hsquare : m.rows = m.cols := by simpa [isSquare] using hsquare
    refine Result.allM_eq_ok fun r hr => Result.allM_eq_ok fun c hc => ?_
    have hr := List.mem_range.mp hr
    have hc := List.mem_range'_1.mp hc
    rw [m.readAt_eq hr (by omega), m.readAt_eq (by omega) (by omega)]
    rfl

end Loops

end Qubo.Matrix

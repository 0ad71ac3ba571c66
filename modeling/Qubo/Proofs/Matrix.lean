import Mathlib.Tactic
import Mathlib.Algebra.BigOperators.Intervals
import Qubo.Matrix
import Qubo.Proofs.Exact

/-! Matrices through their entries: how each operation acts on the entry at a row and a column,
and, over the rationals, rows, products and sums as finite sums of entries. -/
namespace Qubo.Matrix
open Finset

theorem index_lt {m n r c : ℕ} (hr : r < m) (hc : c < n) : r * n + c < m * n :=
  calc r * n + c < r * n + n := by omega
    _ = (r + 1) * n := by ring
    _ ≤ m * n := Nat.mul_le_mul_right n hr

theorem index_div {n r c : ℕ} (hc : c < n) : (r * n + c) / n = r := by
  rw [Nat.mul_comm, Nat.mul_add_div (by omega), Nat.div_eq_of_lt hc, Nat.add_zero]

theorem index_mod {n r c : ℕ} (hc : c < n) : (r * n + c) % n = c := by
  rw [Nat.mul_comm, Nat.mul_add_mod, Nat.mod_eq_of_lt hc]

/-- Different positions are stored in different places. -/
theorem index_inj {n r r' c c' : ℕ} (hc : c < n) (hc' : c' < n)
    (h : r * n + c = r' * n + c') : r = r' ∧ c = c' :=
  ⟨by rw [← index_div (r := r) hc, h, index_div hc'],
    by rw [← index_mod (r := r) hc, h, index_mod hc']⟩

section Entries
variable {α : Type}

@[simp] theorem rows_generate (m n : ℕ) (f : ℕ → ℕ → α) : (generate m n f).rows = m := rfl

@[simp] theorem cols_generate (m n : ℕ) (f : ℕ → ℕ → α) : (generate m n f).cols = n := rfl

@[simp] theorem rows_set (m : Matrix α) (r c : ℕ) (v : α) : (m.set r c v).rows = m.rows := rfl

@[simp] theorem cols_set (m : Matrix α) (r c : ℕ) (v : α) : (m.set r c v).cols = m.cols := rfl

@[simp] theorem length_row (m : Matrix α) {r : ℕ} (hr : r < m.rows) :
    (m.row r).length = m.cols := by
  have hi : r * m.cols + m.cols ≤ m.rows * m.cols := by
    rw [← Nat.succ_mul]
    exact Nat.mul_le_mul_right _ hr
  simp only [row, Array.length_toList, Array.size_extract, m.size_eq]
  omega

theorem length_of_mem_toRows (m : Matrix α) {row : List α} (h : row ∈ m.toRows) :
    row.length = m.cols := by
  obtain ⟨r, hr, rfl⟩ := List.mem_map.mp h
  exact m.length_row (List.mem_range.mp hr)

theorem index_lt_size (m : Matrix α) {r c : ℕ} (hr : r < m.rows) (hc : c < m.cols) :
    r * m.cols + c < m.data.size := by
  rw [m.size_eq]
  exact index_lt hr hc

variable [Scalar α]

@[simp] theorem rows_scale (m : Matrix α) (k : α) : (m.scale k).rows = m.rows := rfl

@[simp] theorem cols_scale (m : Matrix α) (k : α) : (m.scale k).cols = m.cols := rfl

@[simp] theorem rows_setDiagonal (m : Matrix α) (v : α) : (m.setDiagonal v).rows = m.rows := rfl

@[simp] theorem cols_setDiagonal (m : Matrix α) (v : α) : (m.setDiagonal v).cols = m.cols := rfl

@[simp] theorem rows_transpose (m : Matrix α) : m.transpose.rows = m.cols := rfl

@[simp] theorem cols_transpose (m : Matrix α) : m.transpose.cols = m.rows := rfl

theorem getElem?_data (m : Matrix α) {r c : ℕ} (hr : r < m.rows) (hc : c < m.cols) :
    m.data[r * m.cols + c]? = some (m.entry r c) := by
  rw [entry, Array.getD_eq_getD_getElem?, Array.getElem?_eq_getElem (m.index_lt_size hr hc)]
  rfl

theorem entry_generate {m n r c : ℕ} (f : ℕ → ℕ → α) (hr : r < m) (hc : c < n) :
    (generate m n f).entry r c = f r c := by
  have hi : r * n + c < m * n := index_lt hr hc
  simp only [entry, generate, Array.getD_eq_getD_getElem?]
  rw [Array.getElem?_eq_getElem (by simpa using hi), Array.getElem_ofFn, Option.getD_some,
    index_div hc, index_mod hc]

/-- Matrices of one shape are the same if their entries are. -/
theorem ext_entry {a b : Matrix α} (hrows : a.rows = b.rows) (hcols : a.cols = b.cols)
    (h : ∀ r < a.rows, ∀ c < a.cols, a.entry r c = b.entry r c) : a = b := by
  have hdata : a.data = b.data := by
    refine Array.ext (by rw [a.size_eq, b.size_eq, hrows, hcols]) fun i hi hi' => ?_
    have hcols : 0 < a.cols := Nat.pos_of_mul_pos_left (Nat.zero_lt_of_lt (a.size_eq ▸ hi))
    have hr : i / a.cols < a.rows := Nat.div_lt_of_lt_mul (Nat.mul_comm _ a.cols ▸ a.size_eq ▸ hi)
    have hentry := h _ hr _ (Nat.mod_lt i hcols)
    simp only [entry, ← ‹a.cols = b.cols›, Nat.div_add_mod', Array.getD_eq_getD_getElem?] at hentry
    rwa [Array.getElem?_eq_getElem hi, Array.getElem?_eq_getElem hi'] at hentry
  obtain ⟨rows, cols, data, hsize⟩ := a
  obtain ⟨rows', cols', data', hsize'⟩ := b
  obtain rfl : rows = rows' := hrows
  obtain rfl : cols = cols' := hcols
  obtain rfl : data = data' := hdata
  rfl

theorem generate_congr {m n : ℕ} {f g : ℕ → ℕ → α} (h : ∀ r < m, ∀ c < n, f r c = g r c) :
    generate m n f = generate m n g := by
  refine ext_entry rfl rfl fun r hr c hc => ?_
  rw [rows_generate] at hr
  rw [cols_generate] at hc
  rw [entry_generate f hr hc, entry_generate g hr hc, h r hr c hc]

theorem getElem?_row (m : Matrix α) {r c : ℕ} (hr : r < m.rows) (hc : c < m.cols) :
    (m.row r)[c]? = some (m.entry r c) := by
  have hi := m.index_lt_size hr hc
  rw [← getElem?_data m hr hc, row, Array.getElem?_toList,
    Array.getElem?_extract_of_lt (by omega), Array.getElem?_eq_getElem hi]

theorem entry_map (m : Matrix α) (f : α → α) {r c : ℕ} (hr : r < m.rows) (hc : c < m.cols) :
    (m.map f).entry r c = f (m.entry r c) := by
  have h : (m.map f).data[r * m.cols + c]? = some (f (m.entry r c)) := by
    rw [map, Array.getElem?_map, getElem?_data m hr hc]
    rfl
  exact Option.some_inj.mp ((getElem?_data (m.map f) hr hc).symm.trans h)

theorem entry_setDiagonal (m : Matrix α) (v : α) {r c : ℕ} (hr : r < m.rows) (hc : c < m.cols) :
    (m.setDiagonal v).entry r c = if r = c then v else m.entry r c :=
  entry_generate _ hr hc

theorem entry_transpose (m : Matrix α) {r c : ℕ} (hr : r < m.rows) (hc : c < m.cols) :
    m.transpose.entry c r = m.entry r c :=
  entry_generate _ hc hr

theorem entry_set (m : Matrix α) (v : α) {r c r' c' : ℕ} (hr : r < m.rows) (hc : c < m.cols)
    (hr' : r' < m.rows) (hc' : c' < m.cols) :
    (m.set r c v).entry r' c' = if r = r' ∧ c = c' then v else m.entry r' c' := by
  refine Option.some_inj.mp ((getElem?_data (m.set r c v) hr' hc').symm.trans ?_)
  simp only [set]
  by_cases h : r = r' ∧ c = c'
  · obtain ⟨rfl, rfl⟩ := h
    rw [Array.getElem?_setIfInBounds_self_of_lt (m.index_lt_size hr hc)]
    simp
  · rw [Array.getElem?_setIfInBounds_ne (fun he => h (index_inj hc hc' he)),
      getElem?_data m hr' hc', if_neg h]

theorem row_set_of_ne (m : Matrix α) (v : α) {r c : ℕ} (hr : r < m.rows) (hc : c < m.cols)
    {k : ℕ} (hk : k < m.rows)
    (hne : k ≠ r) : (m.set r c v).row k = m.row k := by
  refine List.ext_getElem? fun i => ?_
  rcases Nat.lt_or_ge i m.cols with hi | hi
  · rw [getElem?_row (m.set r c v) hk hi, getElem?_row m hk hi, m.entry_set v hr hc hk hi,
      if_neg fun h => hne h.1.symm]
  · rw [List.getElem?_eq_none ((length_row (m.set r c v) hk).trans_le hi),
      List.getElem?_eq_none ((length_row m hk).trans_le hi)]

theorem row_set_self (m : Matrix α) (v : α) {r c : ℕ} (hr : r < m.rows) (hc : c < m.cols) :
    (m.set r c v).row r = (m.row r).set c v := by
  refine List.ext_getElem? fun i => ?_
  rcases Nat.lt_or_ge i m.cols with hi | hi
  · rw [getElem?_row (m.set r c v) hr hi, m.entry_set v hr hc hr hi, List.getElem?_set,
      length_row m hr, getElem?_row m hr hi]
    by_cases h : c = i <;> simp [h, hi]
  · rw [List.getElem?_eq_none ((length_row (m.set r c v) hr).trans_le hi),
      List.getElem?_eq_none (((List.length_set).trans (length_row m hr)).trans_le hi)]

@[simp] theorem length_mulVec (m : Matrix α) (v : List α) : (m.mulVec v).length = m.rows := by
  simp [mulVec, toRows]

theorem getElem?_mulVec (m : Matrix α) (v : List α) {r : ℕ} (hr : r < m.rows) :
    (m.mulVec v)[r]? = some (Scalar.dot (m.row r) v) := by
  simp [mulVec, toRows, hr]

@[simp] theorem rows_sign (m : Matrix α) (d : Direction) : (d.sign m).rows = m.rows := by
  cases d <;> rfl

@[simp] theorem cols_sign (m : Matrix α) (d : Direction) : (d.sign m).cols = m.cols := by
  cases d <;> rfl

@[simp] theorem length_rowSums (m : Matrix α) : m.rowSums.length = m.rows := by
  simp [rowSums, toRows]

private theorem length_foldl_zipWith_add {n : ℕ} (rows : List (List α))
    (hrows : ∀ row ∈ rows, row.length = n) (acc : List α) (hacc : acc.length = n) :
    (rows.foldl (List.zipWith (· + ·)) acc).length = n := by
  induction rows generalizing acc with
  | nil => exact hacc
  | cons row rows ih =>
    have hrow := hrows row List.mem_cons_self
    exact ih (fun r hr => hrows r (List.mem_cons_of_mem _ hr)) _ (by simp [hacc, hrow])

@[simp] theorem length_colSums (m : Matrix α) : m.colSums.length = m.cols :=
  length_foldl_zipWith_add m.toRows (fun _ => m.length_of_mem_toRows) _ (by simp)

end Entries

section Exact
variable (m : Matrix ℚ)

/-- Square, with equal mirrored entries. -/
def IsMirrored (m : Matrix ℚ) : Prop :=
  m.rows = m.cols ∧ ∀ r < m.rows, ∀ c < m.rows, m.entry r c = m.entry c r

instance (m : Matrix ℚ) : Decidable m.IsMirrored := inferInstanceAs (Decidable (_ ∧ _))

theorem entry_sign (d : Direction) {r c : ℕ} (hr : r < m.rows) (hc : c < m.cols) :
    (d.sign m).entry r c = d.sign (m.entry r c) := by
  cases d with
  | minimize => rfl
  | maximize => exact entry_map m _ hr hc

theorem mulVec_rat (v : List ℚ) {r : ℕ} (hr : r < m.rows) :
    (m.mulVec v)[r]?.getD 0 = ∑ c ∈ range m.cols, m.entry r c * v[c]?.getD 0 := by
  rw [getElem?_mulVec m v hr, Option.getD_some, Scalar.dot_rat v (length_row m hr).le]
  refine sum_congr rfl fun c hc => ?_
  rw [getElem?_row m hr (mem_range.mp hc), Option.getD_some]

/-- A bilinear form as a double sum over the entries. -/
theorem dot_mulVec_rat (x y : List ℚ) :
    Scalar.dot x (m.mulVec y) = ∑ r ∈ range m.rows, ∑ c ∈ range m.cols,
      x[r]?.getD 0 * m.entry r c * y[c]?.getD 0 := by
  rw [Scalar.dot_comm, Scalar.dot_rat (n := m.rows) x (by simp)]
  refine sum_congr rfl fun r hr => ?_
  rw [mulVec_rat m y (mem_range.mp hr), sum_mul]
  exact sum_congr rfl fun c _ => by ring

/-- A bilinear form from either side. -/
theorem dot_mulVec_transpose (x y : List ℚ) :
    Scalar.dot y (m.transpose.mulVec x) = Scalar.dot x (m.mulVec y) := by
  rw [m.transpose.dot_mulVec_rat, m.dot_mulVec_rat, sum_comm]
  refine sum_congr rfl fun r hr => sum_congr rfl fun c hc => ?_
  rw [m.entry_transpose (mem_range.mp hr) (mem_range.mp hc)]
  ring

theorem dot_mulVec_sign (d : Direction) (x y : List ℚ) :
    Scalar.dot x ((d.sign m).mulVec y) = d.sign (Scalar.dot x (m.mulVec y)) := by
  rw [(d.sign m).dot_mulVec_rat, m.dot_mulVec_rat]
  simp only [Direction.sign_sum, rows_sign, cols_sign]
  refine sum_congr rfl fun r hr => sum_congr rfl fun c hc => ?_
  rw [m.entry_sign d (mem_range.mp hr) (mem_range.mp hc), Direction.sign_mul,
    mul_comm _ (m.entry r c), Direction.sign_mul, mul_comm (d.sign _)]

theorem rowSums_rat {r : ℕ} (hr : r < m.rows) :
    m.rowSums[r]? = some (∑ c ∈ range m.cols, m.entry r c) := by
  have h : m.rowSums[r]? = some (Scalar.sum (m.row r)) := by simp [rowSums, toRows, hr]
  rw [h, Scalar.sum_eq_sum_range (length_row m hr).le]
  refine congrArg some (sum_congr rfl fun c hc => ?_)
  rw [getElem?_row m hr (mem_range.mp hc), Option.getD_some]

private theorem getElem?_foldl_zipWith_add {n c : ℕ} (hc : c < n) (rows : List (List ℚ))
    (hrows : ∀ row ∈ rows, row.length = n) (acc : List ℚ) (hacc : acc.length = n) :
    (rows.foldl (List.zipWith (· + ·)) acc)[c]? =
      some (acc[c]?.getD 0 + (rows.map fun row => row[c]?.getD 0).sum) := by
  induction rows generalizing acc with
  | nil => simp [hacc, hc]
  | cons row rows ih =>
    have hrow := hrows row List.mem_cons_self
    rw [List.foldl_cons, ih (fun r hr => hrows r (List.mem_cons_of_mem _ hr)) _ (by simp [*])]
    simp [hacc, hrow, hc, add_assoc]

theorem colSums_rat {c : ℕ} (hc : c < m.cols) :
    m.colSums[c]? = some (∑ r ∈ range m.rows, m.entry r c) := by
  rw [colSums, getElem?_foldl_zipWith_add hc _ (fun _ => m.length_of_mem_toRows) _ (by simp),
    toRows, List.map_map, Scalar.sum_map_range]
  refine congrArg some ?_
  rw [List.getElem?_replicate, if_pos hc, Option.getD_some, Scalar.zero_rat, zero_add]
  refine sum_congr rfl fun r hr => ?_
  rw [Function.comp_apply, getElem?_row m (mem_range.mp hr) hc, Option.getD_some]

private theorem sum_range_mul (f : ℕ → ℚ) (k n : ℕ) :
    ∑ i ∈ range (k * n), f i = ∑ r ∈ range k, ∑ c ∈ range n, f (r * n + c) := by
  induction k with
  | zero => simp
  | succ k ih => rw [Nat.succ_mul, sum_range_add, ih, sum_range_succ]

theorem sum_eq_rat : m.sum = ∑ r ∈ range m.rows, ∑ c ∈ range m.cols, m.entry r c := by
  have hlen : m.data.toList.length = m.rows * m.cols := by rw [Array.length_toList, m.size_eq]
  rw [Matrix.sum, Scalar.sum_eq_sum_range hlen.le, sum_range_mul]
  refine sum_congr rfl fun r hr => sum_congr rfl fun c hc => ?_
  rw [Array.getElem?_toList, getElem?_data m (mem_range.mp hr) (mem_range.mp hc), Option.getD_some]

theorem trace_rat (h : m.rows = m.cols) : m.trace = ∑ r ∈ range m.rows, m.entry r r := by
  rw [trace, ← h, min_self, Scalar.sum_eq_sum_range (n := m.rows) (by simp)]
  refine sum_congr rfl fun r hr => ?_
  rw [List.getElem?_map, List.getElem?_range (mem_range.mp hr)]
  rfl

end Exact

end Qubo.Matrix

import Mathlib.Tactic
import Qubo.Proofs.Dense
import Qubo.Proofs.Matrix.Checked

/-! Matrices whose mirrored entries are written together, over the upper triangle row by row. The
mean of mirrored entries in place of either leaves the quadratic form as it is. -/
namespace Qubo.Matrix
open Checked (Fault)

section Loops
variable {α σ : Type}

/-- Writes the upper triangle row by row, from `k` places right of the diagonal on, and each value
at the mirrored position too. The values come one after another from a state. -/
def writeMirrored (next : ℕ → ℕ → σ → Except Fault (α × σ)) (k n : ℕ) (q : Matrix α) (s : σ) :
    Except Fault (Matrix α × σ) :=
  (List.range n).foldlM (fun t r => (List.range' (r + k) (n - (r + k))).foldlM (fun t c => do
    let (v, s) ← next r c t.2
    let q ← t.1.writeAt r c v
    let q ← q.writeAt c r v
    return (q, s)) t) (q, s)

variable [Scalar α]

/-- What has been written before the position at a row and a column. -/
private structure Mirroring (q : Matrix α) (value : ℕ → ℕ → α) (state : ℕ → ℕ → σ) (k n r c : ℕ)
    (t : Matrix α × σ) : Prop where
  rows : t.1.rows = n
  cols : t.1.cols = n
  state : t.2 = state r c
  entry : ∀ i < n, ∀ j < n, t.1.entry i j =
    if min i j + k ≤ max i j ∧ (min i j < r ∨ min i j = r ∧ max i j < c)
      then value (min i j) (max i j) else q.entry i j

section Steps
variable {next : ℕ → ℕ → σ → Except Fault (α × σ)} {value : ℕ → ℕ → α} {state : ℕ → ℕ → σ}
  {k n r c : ℕ} {q : Matrix α} {t : Matrix α × σ}

/-- The two positions of a pair are written, and no other one. -/
private theorem Mirroring.exists_pair (hrc : r + k ≤ c) (hc : c < n)
    (hnext : next r c (state r c) = .ok (value r c, state r (c + 1)))
    (ht : Mirroring q value state k n r c t) : ∃ t', (do
      let (v, s) ← next r c t.2
      let q ← t.1.writeAt r c v
      let q ← q.writeAt c r v
      return (q, s)) = .ok t' ∧ Mirroring q value state k n r (c + 1) t' := by
  obtain ⟨out, s⟩ := t
  obtain ⟨hrows, hcols, rfl, hentry⟩ := ht
  have hr : r < n := by omega
  have hrow : r < out.rows := hrows.symm ▸ hr
  have hcol : c < out.cols := hcols.symm ▸ hc
  have hrow' : c < (out.set r c (value r c)).rows := hrows.symm ▸ hc
  have hcol' : r < (out.set r c (value r c)).cols := hcols.symm ▸ hr
  refine ⟨((out.set r c (value r c)).set c r (value r c), state r (c + 1)), ?_, hrows, hcols,
    rfl, fun i hi j hj => ?_⟩
  · simp only [hnext, out.writeAt_eq _ hrow hcol, writeAt_eq _ (value r c) hrow' hcol', bind,
      Except.bind, pure, Except.pure]
  · have hi' : i < out.rows := hrows.symm ▸ hi
    have hj' : j < out.cols := hcols.symm ▸ hj
    rw [entry_set _ (value r c) hrow' hcol' hi' hj', out.entry_set (value r c) hrow hcol hi' hj',
      hentry i hi j hj]
    by_cases hhere : min i j = r ∧ max i j = c
    · have hdone : min i j + k ≤ max i j ∧ (min i j < r ∨ min i j = r ∧ max i j < c + 1) := by
        omega
      rw [if_pos hdone, hhere.1, hhere.2]
      split_ifs <;> first | rfl | omega
    · rw [if_neg (by omega), if_neg (by omega)]
      exact if_congr (by omega) rfl rfl

/-- A whole row is written, up to the first position of the next one. -/
private theorem Mirroring.exists_row (hk : k ≤ 1) (hr : r < n)
    (hnext : ∀ c, r + k ≤ c → c < n → next r c (state r c) = .ok (value r c, state r (c + 1)))
    (hstate : state r n = state (r + 1) (r + 1 + k))
    (ht : Mirroring q value state k n r (r + k) t) :
    ∃ t', (List.range' (r + k) (n - (r + k))).foldlM (fun t c => do
      let (v, s) ← next r c t.2
      let q ← t.1.writeAt r c v
      let q ← q.writeAt c r v
      return (q, s)) t = .ok t' ∧ Mirroring q value state k n (r + 1) (r + 1 + k) t' := by
  obtain ⟨t', hloop, ht'⟩ := Result.exists_foldlM_range'_eq_ok
    (I := Mirroring q value state k n r) (by omega)
    (fun c hrc hc _ ht => ht.exists_pair hrc hc (hnext c hrc hc)) ht
  refine ⟨t', hloop, ht'.rows, ht'.cols, ht'.state.trans hstate, fun i hi j hj => ?_⟩
  rw [ht'.entry i hi j hj]
  exact if_congr (by omega) rfl rfl

end Steps

/-- Each pair of mirrored positions is written once, and holds the value that was next then. -/
theorem writeMirrored_eq (next : ℕ → ℕ → σ → Except Fault (α × σ)) {k n : ℕ} (hk : k ≤ 1)
    (value : ℕ → ℕ → α) (state : ℕ → ℕ → σ)
    (hnext : ∀ r c, r + k ≤ c → c < n → next r c (state r c) = .ok (value r c, state r (c + 1)))
    (hstate : ∀ r < n, state r n = state (r + 1) (r + 1 + k)) {q : Matrix α} (hrows : q.rows = n)
    (hcols : q.cols = n) :
    writeMirrored next k n q (state 0 k) = .ok (generate n n fun r c =>
      if min r c + k ≤ max r c then value (min r c) (max r c) else q.entry r c,
        state n (n + k)) := by
  obtain ⟨t, hloop, ht⟩ := Result.exists_foldlM_range_eq_ok
    (I := fun r => Mirroring q value state k n r (r + k))
    (fun r hr _ ht => ht.exists_row hk hr (hnext r) (hstate r hr)) (s := (q, state 0 k))
    ⟨hrows, hcols, by rw [Nat.zero_add], fun i hi j hj => (if_neg (by omega)).symm⟩
  refine hloop.trans (congrArg Except.ok (Prod.ext (ext_entry ht.rows ht.cols ?_) ht.state))
  intro r hr c hc
  rw [ht.rows] at hr
  rw [ht.cols] at hc
  rw [ht.entry r hr c hc, entry_generate _ hr hc]
  exact if_congr (by omega) rfl rfl

end Loops

section Symmetrize
variable {α : Type} [Scalar α] (m : Matrix α)

/-- The mean of mirrored entries. -/
def meanAt (r c : ℕ) (_ : Unit) : Except Fault (α × Unit) := do
  let upper ← m.readAt r c
  let lower ← m.readAt c r
  return (Scalar.half * (upper + lower), ())

/-- Mirrored entries replaced by their mean, which is taken from the matrix as it was. -/
def symmetrizeAt : Except Fault (Matrix α) :=
  if !m.isSquare then return m
  else return (← writeMirrored m.meanAt 1 m.rows m ()).1

theorem symmetrizeAt_eq : m.symmetrizeAt = .ok m.symmetrize := by
  rw [symmetrizeAt, symmetrize]
  cases hsquare : m.isSquare with
  | false => rfl
  | true =>
    have hsq : m.rows = m.cols := by simpa [isSquare] using hsquare
    have hmean (r c : ℕ) (hrc : r + 1 ≤ c) (hc : c < m.rows) :
        m.meanAt r c () = .ok (Scalar.half * (m.entry r c + m.entry c r), ()) := by
      rw [meanAt, m.readAt_eq (by omega) (by omega), m.readAt_eq (by omega) (by omega)]
      rfl
    have hloop := writeMirrored_eq (q := m) m.meanAt le_rfl _ (fun _ _ => ()) hmean
      (fun _ _ => rfl) rfl hsq.symm
    rw [Bool.not_true, if_neg Bool.false_ne_true, if_pos rfl, hloop, ← hsq]
    refine congrArg Except.ok ?_
    dsimp only
    refine generate_congr fun r _ c _ => ?_
    by_cases hrc : r = c
    · rw [if_pos hrc, if_neg (by omega)]
    · rw [if_neg hrc, if_pos (by omega), mirrorMean]

theorem symmetrize_of_ne {m : Matrix α} (h : m.rows ≠ m.cols) : m.symmetrize = m :=
  if_neg (by simpa [isSquare] using h)

@[simp] theorem rows_symmetrize : m.symmetrize.rows = m.rows := by
  unfold symmetrize
  split <;> rfl

@[simp] theorem cols_symmetrize : m.symmetrize.cols = m.cols := by
  unfold symmetrize
  split <;> rfl

theorem entry_symmetrize {m : Matrix α} (hsq : m.rows = m.cols) {r c : ℕ} (hr : r < m.rows)
    (hc : c < m.rows) :
    m.symmetrize.entry r c = if r = c then m.entry r c else m.mirrorMean r c := by
  have hsquare : m.isSquare = true := by simpa [isSquare] using hsq
  rw [symmetrize, if_pos hsquare]
  exact entry_generate _ hr (hsq ▸ hc)

end Symmetrize

section Exact
open Finset
variable {m : Matrix ℚ} (hsq : m.rows = m.cols)
include hsq

/-- On the diagonal, too, an entry is the mean of itself and the one mirrored. -/
theorem entry_symmetrize_rat {r c : ℕ} (hr : r < m.rows) (hc : c < m.rows) :
    m.symmetrize.entry r c = (m.entry r c + m.entry c r) / 2 := by
  rw [entry_symmetrize hsq hr hc, mirrorMean, Scalar.half_rat]
  split_ifs with hrc
  · rw [hrc, add_self_div_two]
  · rcases le_total r c with h | h
    · rw [min_eq_left h, max_eq_right h]
      ring
    · rw [min_eq_right h, max_eq_left h]
      ring

theorem isMirrored_symmetrize : m.symmetrize.IsMirrored := by
  refine ⟨by simpa using hsq, fun r hr c hc => ?_⟩
  rw [rows_symmetrize] at hr hc
  rw [entry_symmetrize_rat hsq hr hc, entry_symmetrize_rat hsq hc hr, add_comm]

/-- The two halves of the form are each the whole, one of them read by columns. -/
theorem dot_mulVec_symmetrize (x : List ℚ) :
    Scalar.dot x (m.symmetrize.mulVec x) = Scalar.dot x (m.mulVec x) := by
  have hswap : ∑ r ∈ range m.rows, ∑ c ∈ range m.rows,
        x[r]?.getD 0 * m.entry c r * x[c]?.getD 0 =
      ∑ r ∈ range m.rows, ∑ c ∈ range m.rows, x[r]?.getD 0 * m.entry r c * x[c]?.getD 0 := by
    rw [sum_comm]
    exact sum_congr rfl fun r _ => sum_congr rfl fun c _ => by ring
  have hmean : ∑ r ∈ range m.rows, ∑ c ∈ range m.rows,
        x[r]?.getD 0 * m.symmetrize.entry r c * x[c]?.getD 0 =
      1 / 2 * ∑ r ∈ range m.rows, ∑ c ∈ range m.rows,
          x[r]?.getD 0 * m.entry r c * x[c]?.getD 0 +
        1 / 2 * ∑ r ∈ range m.rows, ∑ c ∈ range m.rows,
          x[r]?.getD 0 * m.entry c r * x[c]?.getD 0 := by
    simp only [mul_sum, ← sum_add_distrib]
    refine sum_congr rfl fun r hr => sum_congr rfl fun c hc => ?_
    rw [entry_symmetrize_rat hsq (mem_range.mp hr) (mem_range.mp hc)]
    ring
  rw [dot_mulVec_rat, dot_mulVec_rat, rows_symmetrize, cols_symmetrize, ← hsq, hmean, hswap]
  ring

end Exact

theorem symmetrize_of_isMirrored {m : Matrix ℚ} (h : m.IsMirrored) : m.symmetrize = m := by
  refine ext_entry m.rows_symmetrize m.cols_symmetrize fun r hr c hc => ?_
  rw [rows_symmetrize] at hr
  rw [cols_symmetrize, ← h.1] at hc
  rw [entry_symmetrize_rat h.1 hr hc, h.2 c hc r hr, add_self_div_two]

/-- The two loops over the upper triangle, which never read a position that they have written,
leave the means. Of a square matrix these are mirrored, with the same diagonal, and are what the
means of them would be; the quadratic form is the same for every vector, so that every assignment
keeps its energy. Another matrix stays as it is. -/
theorem symmetrize_keeps_energies (w : Matrix ℚ) :
    w.symmetrizeAt = .ok w.symmetrize ∧
    (w.rows = w.cols →
      (w.symmetrize.shape = w.shape ∧ w.symmetrize.IsMirrored ∧
        Dense.check w.symmetrize = .ok ()) ∧
      (∀ i < w.rows, w.symmetrize.entry i i = w.entry i i) ∧
      w.symmetrize.symmetrize = w.symmetrize ∧
      (∀ x, Scalar.dot x (w.symmetrize.mulVec x) = Scalar.dot x (w.mulVec x)) ∧
      (∀ x : Bits, x.size = w.rows →
        Dense.energy w.symmetrize x = .ok (Dense.quadratic w x.reals)) ∧
      ∀ x e, Dense.energy w x = .ok e → Dense.energy w.symmetrize x = .ok e) ∧
    (w.rows ≠ w.cols → w.symmetrize = w) := by
  refine ⟨w.symmetrizeAt_eq, fun hsq => ?_, symmetrize_of_ne⟩
  have hmirrored := isMirrored_symmetrize hsq
  have hcheck := Dense.check_of_isMirrored hmirrored
  have henergy (x : Bits) (hx : x.size = w.rows) :
      Dense.energy w.symmetrize x = .ok (Dense.quadratic w x.reals) :=
    (Dense.energy_eq_ok_iff hcheck).mpr
      ⟨hx.trans w.rows_symmetrize.symm, (dot_mulVec_symmetrize hsq x.reals).symm⟩
  refine ⟨⟨?_, hmirrored, hcheck⟩, fun i hi => ?_, symmetrize_of_isMirrored hmirrored,
    dot_mulVec_symmetrize hsq, henergy, fun x e he => ?_⟩
  · rw [shape, shape, rows_symmetrize, cols_symmetrize]
  · rw [entry_symmetrize hsq hi hi, if_pos rfl]
  · obtain ⟨_, haccepted, -⟩ := Result.bind_eq_ok_iff.mp he
    obtain ⟨hx, rfl⟩ := (Dense.energy_eq_ok_iff haccepted).mp he
    exact henergy x hx

/-- A matrix that is refused as it is, with an assignment of the first two of its variables, and a
row. -/
theorem symmetrize_keeps_energies_of_askew :
    let w : Matrix ℚ := ⟨3, 3, #[1, 2, 0, 4, -1, 5, 6, 0, 2], rfl⟩
    let row : Matrix ℚ := ⟨1, 2, #[1, 2], rfl⟩
    Dense.check w ≠ .ok () ∧ Dense.check w.symmetrize = .ok () ∧
      w.symmetrize.data = #[1, 3, 3, 3, -1, 5 / 2, 3, 5 / 2, 2] ∧
      Dense.energy w.symmetrize ⟨[1, 1, 0]⟩ = .ok 6 ∧ row.symmetrize = row := by
  intro w row
  obtain ⟨-, hsquare, -⟩ := symmetrize_keeps_energies w
  obtain ⟨⟨-, -, hcheck⟩, -, -, -, henergy, -⟩ := hsquare rfl
  obtain ⟨-, -, hother⟩ := symmetrize_keeps_energies row
  refine ⟨by decide +kernel, hcheck, by decide +kernel, ?_, hother (by decide)⟩
  rw [henergy ⟨[1, 1, 0]⟩ rfl]
  decide +kernel

end Qubo.Matrix

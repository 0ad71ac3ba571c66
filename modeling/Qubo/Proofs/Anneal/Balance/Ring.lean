import Mathlib.Tactic
import Qubo.Proofs.Anneal.Sweep

/-! Slices in a ring: the energy that all slices have together, and by how much one flip changes it,
however few slices there are. -/
namespace Qubo.Anneal
open Finset

section Ring
variable {m i : ℕ}

/-- Products of neighbours in a ring of numbers. -/
def ringProducts (m : ℕ) (f : ℕ → ℚ) : ℚ := ∑ k ∈ range m, f k * f ((k + 1) % m)

/-- The place before `i` in a ring is the only one that `i` comes after. -/
theorem succ_mod_eq_iff (hi : i < m) {k : ℕ} (hk : k < m) :
    (k + 1) % m = i ↔ k = (i + m - 1) % m := by
  rcases Nat.eq_zero_or_pos i with rfl | hpos
  · rw [Nat.zero_add, Nat.mod_eq_of_lt (Nat.sub_lt hi one_pos)]
    rcases Nat.lt_or_ge (k + 1) m with hlt | hge
    · rw [Nat.mod_eq_of_lt hlt]
      omega
    · obtain rfl : m = k + 1 := by omega
      simp
  · obtain ⟨j, rfl⟩ : ∃ j, i = j + 1 := ⟨i - 1, by omega⟩
    have hpred : (j + 1 + m - 1) % m = j := by
      rw [Nat.add_right_comm, Nat.add_sub_cancel, Nat.add_mod_right, Nat.mod_eq_of_lt (by omega)]
    rw [hpred]
    rcases Nat.lt_or_ge (k + 1) m with hlt | hge
    · rw [Nat.mod_eq_of_lt hlt]
      omega
    · obtain rfl : m = k + 1 := by omega
      rw [Nat.mod_self]
      omega

/-- A number that is alone in its ring is its own neighbour, and one of two has the other on either
side. -/
theorem ringProducts_sub {f f' : ℕ → ℚ} (hi : i < m) (hflip : f' i = -f i)
    (h : ∀ k < m, k ≠ i → f' k = f k) : ringProducts m f' - ringProducts m f =
      if 1 < m then -2 * (f i * (f ((i + m - 1) % m) + f ((i + 1) % m))) else 0 := by
  have hm : 0 < m := Nat.zero_lt_of_lt hi
  split_ifs with hmany
  · have hlast : (i + m - 1) % m < m := Nat.mod_lt _ hm
    have hnext : (i + 1) % m < m := Nat.mod_lt _ hm
    have hback : ((i + m - 1) % m + 1) % m = i := (succ_mod_eq_iff hi hlast).mpr rfl
    have hnext_ne : (i + 1) % m ≠ i := by
      rcases Nat.lt_or_ge (i + 1) m with hlt | hge
      · rw [Nat.mod_eq_of_lt hlt]
        omega
      · obtain rfl : m = i + 1 := by omega
        rw [Nat.mod_self]
        omega
    have hlast_ne : (i + m - 1) % m ≠ i := fun heq => hnext_ne (by rwa [heq] at hback)
    -- First only the left factors change, then only the right ones.
    have hleft : ∑ k ∈ range m, f' k * f' ((k + 1) % m) - ∑ k ∈ range m, f k * f' ((k + 1) % m) =
        f' i * f' ((i + 1) % m) - f i * f' ((i + 1) % m) :=
      sum_sub_sum_of_eq hi fun k hk hne => by rw [h k hk hne]
    have hright : ∑ k ∈ range m, f k * f' ((k + 1) % m) - ∑ k ∈ range m, f k * f ((k + 1) % m) =
        f ((i + m - 1) % m) * f' i - f ((i + m - 1) % m) * f i := by
      have hother (k : ℕ) (hk : k < m) (hne : k ≠ (i + m - 1) % m) :
          f k * f' ((k + 1) % m) = f k * f ((k + 1) % m) := by
        rw [h _ (Nat.mod_lt _ hm) fun heq => hne ((succ_mod_eq_iff hi hk).mp heq)]
      have hsum := sum_sub_sum_of_eq hlast hother
      rwa [hback] at hsum
    rw [h _ hnext hnext_ne, hflip] at hleft
    rw [hflip] at hright
    rw [ringProducts, ringProducts]
    linear_combination hleft + hright
  · obtain rfl : m = 1 := by omega
    obtain rfl : i = 0 := by omega
    simp [ringProducts, hflip]

end Ring

section Flip
variable {q : Matrix ℚ} {p : Proposal ℚ}

/-- Products of each slice and the next one. -/
def ringSum (q : Matrix ℚ) : ℚ :=
  ∑ k ∈ range q.rows, Scalar.dot (q.row k) (q.row ((k + 1) % q.rows))

/-- Every variable has a ring of its own. -/
theorem ringSum_eq (q : Matrix ℚ) :
    ringSum q = ∑ c ∈ range q.cols, ringProducts q.rows fun k => q.entry k c := by
  simp only [ringSum, ringProducts]
  rw [sum_comm]
  refine sum_congr rfl fun k hk => ?_
  have hk := mem_range.mp hk
  have hnext : (k + 1) % q.rows < q.rows := Nat.mod_lt _ (Nat.zero_lt_of_lt hk)
  rw [Scalar.dot_rat _ (q.length_row hk).le]
  refine sum_congr rfl fun c hc => ?_
  have hc := mem_range.mp hc
  rw [q.getElem?_row hk hc, q.getElem?_row hnext hc, Option.getD_some, Option.getD_some]

theorem ringSum_flip_sub (hslice : p.slice < q.rows) (hsite : p.site < q.cols) :
    ringSum (flip q p) - ringSum q = if 1 < q.rows then
      -2 * (q.entry p.slice p.site * (q.entry ((p.slice + q.rows - 1) % q.rows) p.site +
        q.entry ((p.slice + 1) % q.rows) p.site)) else 0 := by
  have hentry (k : ℕ) (hk : k < q.rows) (c : ℕ) (hc : c < q.cols) : (flip q p).entry k c =
      if p.slice = k ∧ p.site = c then -q.entry p.slice p.site else q.entry k c :=
    q.entry_set _ hslice hsite hk hc
  rw [ringSum_eq, ringSum_eq]
  refine (sum_sub_sum_of_eq hsite fun c hc hne => ?_).trans ?_
  · refine sum_congr rfl fun k hk => ?_
    have hk := mem_range.mp hk
    have hnext : (k + 1) % q.rows < q.rows := Nat.mod_lt _ (Nat.zero_lt_of_lt hk)
    dsimp only
    rw [rows_flip, hentry k hk c hc, hentry _ hnext c hc, if_neg fun h => hne h.2.symm,
      if_neg fun h => hne h.2.symm]
  · refine ringProducts_sub hslice ?_ fun k hk hne => ?_
    · rw [hentry p.slice hslice p.site hsite, if_pos ⟨rfl, rfl⟩]
    · rw [hentry k hk p.site hsite, if_neg fun h => hne h.1.symm]

/-- The energy of all slices: the mean of what each has in itself, and half the coupling for each
pair of neighbouring spins. -/
def ringEnergy (slice : ℕ → List ℚ → ℚ) (coupling : ℚ) (q : Matrix ℚ) : ℚ :=
  1 / (q.rows : ℚ) * ∑ k ∈ range q.rows, slice k (q.row k) + coupling / 2 * ringSum q

/-- The cost of a flip is what it changes in the energy of all slices, if the spin feels the field
that its slice turns on it. -/
theorem flipCost_eq_sub {slice : ℕ → List ℚ → ℚ} (coupling : ℚ) {field : ℚ}
    (hslice : p.slice < q.rows) (hsite : p.site < q.cols)
    (hfield : slice p.slice ((q.row p.slice).set p.site (-(q.entry p.slice p.site))) -
      slice p.slice (q.row p.slice) = -2 * q.entry p.slice p.site * field) :
    flipCost coupling q p field =
      ringEnergy slice coupling (flip q p) - ringEnergy slice coupling q := by
  have hslices : ∑ k ∈ range q.rows, slice k ((flip q p).row k) -
      ∑ k ∈ range q.rows, slice k (q.row k) = -2 * q.entry p.slice p.site * field := by
    have hrow : (flip q p).row p.slice =
        (q.row p.slice).set p.site (-(q.entry p.slice p.site)) :=
      q.row_set_self _ hslice hsite
    rw [← hfield, ← hrow]
    exact sum_sub_sum_of_eq hslice fun k hk hne =>
      congrArg (slice k) (q.row_set_of_ne _ hslice hsite hk hne)
  have hring := ringSum_flip_sub hslice hsite
  have henergy : ringEnergy slice coupling (flip q p) - ringEnergy slice coupling q =
      1 / (q.rows : ℚ) * (-2 * q.entry p.slice p.site * field) +
        coupling / 2 * (ringSum (flip q p) - ringSum q) := by
    rw [← hslices, ringEnergy, ringEnergy, rows_flip]
    ring
  rw [henergy, hring, flipCost, Scalar.two_rat]
  split_ifs <;> ring

end Flip

end Qubo.Anneal

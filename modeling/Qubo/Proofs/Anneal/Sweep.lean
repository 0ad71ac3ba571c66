import Mathlib.Tactic
import Qubo.Anneal.Sweep
import Qubo.Proofs.Exact
import Qubo.Proofs.Matrix
import Qubo.Proofs.Random.Draw

/-! Spins stay spins: whatever is proposed and whatever is accepted, a sweep turns spins of either
sign around and leaves the shape of the slices as it is. -/
namespace Qubo.Anneal

/-- Arithmetic in which one has an opposite, and `2x - 1` takes zero and one to the two of them. -/
class LawfulSpins (α : Type) [Scalar α] : Prop where
  neg_neg_one : -(-Scalar.one) = (Scalar.one : α)
  spin_zero : Scalar.two * ((0 : ℕ) : α) - Scalar.one = -Scalar.one
  spin_one : Scalar.two * ((1 : ℕ) : α) - Scalar.one = Scalar.one

instance : LawfulSpins ℚ where
  neg_neg_one := by simp
  spin_zero := by simp
  spin_one := by norm_num

instance : LawfulSpins Float where
  neg_neg_one := by decide
  spin_zero := by decide
  spin_one := by decide

variable {α : Type} [Scalar α]

def IsSpin (v : α) : Prop := v = Scalar.one ∨ v = -Scalar.one

/-- All that is stored are spins of either sign. -/
def AllSpins (q : Matrix α) : Prop := ∀ v ∈ q.data, IsSpin v

theorem isSpin_rat {v : ℚ} : IsSpin v ↔ v = 1 ∨ v = -1 := by simp [IsSpin]

theorem AllSpins.row {q : Matrix α} (h : AllSpins q) (r : ℕ) : ∀ v ∈ q.row r, IsSpin v := by
  intro v hv
  rw [Matrix.row, Array.mem_toList_iff, Array.mem_iff_getElem] at hv
  obtain ⟨i, hi, rfl⟩ := hv
  rw [Array.getElem_extract]
  exact h _ (Array.getElem_mem _)

@[simp] theorem rows_flip (q : Matrix α) (p : Proposal α) : (flip q p).rows = q.rows := rfl

@[simp] theorem cols_flip (q : Matrix α) (p : Proposal α) : (flip q p).cols = q.cols := rfl

section Trial
variable [Transcendental α] (coupling kt : α) (field : Matrix α → Proposal α → α)

@[simp] theorem rows_trial (q : Matrix α) (p : Proposal α) :
    (trial coupling kt field q p).rows = q.rows := by
  unfold trial
  split <;> rfl

@[simp] theorem cols_trial (q : Matrix α) (p : Proposal α) :
    (trial coupling kt field q p).cols = q.cols := by
  unfold trial
  split <;> rfl

/-- The trials of a sweep keep what each single flip keeps. -/
theorem sweep_induction {I : Matrix α → Prop} (hflip : ∀ q p, I q → I (flip q p)) (g : α)
    {q : Matrix α} (h : I q) (ps : List (Proposal α)) : I (sweep g kt field q ps) := by
  unfold sweep
  generalize trotterCoupling g kt q.rows = coupling
  induction ps generalizing q with
  | nil => exact h
  | cons p ps ih =>
    refine ih ?_
    unfold trial
    split
    · exact hflip q p h
    · exact h

@[simp] theorem rows_sweep (g : α) (q : Matrix α) (ps : List (Proposal α)) :
    (sweep g kt field q ps).rows = q.rows :=
  sweep_induction kt field (I := (·.rows = q.rows)) (fun _ _ h => h) g rfl ps

@[simp] theorem cols_sweep (g : α) (q : Matrix α) (ps : List (Proposal α)) :
    (sweep g kt field q ps).cols = q.cols :=
  sweep_induction kt field (I := (·.cols = q.cols)) (fun _ _ h => h) g rfl ps

end Trial

@[simp] theorem rows_randomSpins (n m : ℕ) (g : Random.Generator) :
    (randomSpins (α := α) n m g).1.rows = m := rfl

@[simp] theorem cols_randomSpins (n m : ℕ) (g : Random.Generator) :
    (randomSpins (α := α) n m g).1.cols = n := rfl

@[simp] theorem rows_uniformSpins (m : ℕ) (x : Bits) : (uniformSpins (α := α) m x).rows = m := rfl

@[simp] theorem cols_uniformSpins (m : ℕ) (x : Bits) :
    (uniformSpins (α := α) m x).cols = x.size := rfl

/-- Every entry of a generated matrix is given by a position inside it. -/
private theorem allSpins_generate {m n : ℕ} {f : ℕ → ℕ → α}
    (h : ∀ r < m, ∀ c < n, IsSpin (f r c)) : AllSpins (Matrix.generate m n f) := by
  intro v hv
  obtain ⟨i, rfl⟩ := Array.mem_ofFn.mp hv
  have hn : 0 < n := Nat.pos_of_mul_pos_left i.pos
  exact h _ (Nat.div_lt_of_lt_mul (Nat.mul_comm m n ▸ i.isLt)) _ (Nat.mod_lt _ hn)

theorem allSpins_randomSpins (n m : ℕ) (g : Random.Generator) :
    AllSpins (randomSpins (α := α) n m g).1 := by
  have hdraw (g : Random.Generator) : IsSpin (Random.Draw.spin (α := α) g).1 := by
    rcases hcoin : Random.Draw.coin g with ⟨up, g'⟩
    rw [Random.Draw.spin, hcoin]
    cases up with
    | true => exact Or.inl rfl
    | false => exact Or.inr rfl
  refine allSpins_generate fun r hr c hc => ?_
  have hi : r * n + c < (Random.Draw.many (Random.Draw.spin (α := α)) (m * n) g).1.length := by
    rw [Random.Draw.length_many]
    exact Matrix.index_lt hr hc
  rw [Array.getD_eq_getD_getElem?, List.getElem?_toArray, List.getElem?_eq_getElem hi]
  exact Random.Draw.forall_mem_many hdraw _ _ _ (List.getElem_mem hi)

/-- The sign of a spin is `2x - 1` of the value it is read as. -/
theorem signs_eq (q : List α) :
    signs q = (Bits.ofSpins q).values.map fun v => 2 * (v.toNat : ℤ) - 1 := by
  rw [signs, Bits.ofSpins, List.map_map]
  refine List.map_congr_left fun v _ => ?_
  rw [Function.comp_apply]
  split <;> rfl

variable [LawfulSpins α]

theorem IsSpin.neg {v : α} (h : IsSpin v) : IsSpin (-v) := by
  rcases h with rfl | rfl
  · exact Or.inr rfl
  · exact Or.inl LawfulSpins.neg_neg_one

theorem AllSpins.flip {q : Matrix α} (h : AllSpins q) (p : Proposal α) : AllSpins (flip q p) := by
  intro v hv
  obtain ⟨i, hi, rfl⟩ := Array.mem_iff_getElem.mp hv
  have hi : i < q.data.size := by simpa [Anneal.flip, Matrix.set] using hi
  simp only [Anneal.flip, Matrix.set, Array.getElem_setIfInBounds hi]
  split
  next heq =>
    subst heq
    rw [Matrix.entry, Array.getD_eq_getD_getElem?, Array.getElem?_eq_getElem hi]
    exact (h _ (Array.getElem_mem hi)).neg
  next => exact h _ (Array.getElem_mem hi)

theorem AllSpins.sweep [Transcendental α] {q : Matrix α} (h : AllSpins q) (g kt : α)
    (field : Matrix α → Proposal α → α) (ps : List (Proposal α)) :
    AllSpins (sweep g kt field q ps) :=
  sweep_induction kt field (fun _ p h => h.flip p) g h ps

theorem allSpins_uniformSpins (m : ℕ) {x : Bits} (hx : x.IsBinary) :
    AllSpins (uniformSpins (α := α) m x) := by
  refine allSpins_generate fun r _ c hc => ?_
  have hv := hx x.values[c] (List.getElem_mem hc)
  rw [Array.getD_eq_getD_getElem?, List.getElem?_toArray, Bits.spins, List.getElem?_map,
    List.getElem?_eq_getElem hc]
  rcases hv with h | h
  · rw [h]
    exact Or.inr LawfulSpins.spin_zero
  · rw [h]
    exact Or.inl LawfulSpins.spin_one

end Qubo.Anneal

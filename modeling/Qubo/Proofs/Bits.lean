import Mathlib.Tactic
import Qubo.Bits
import Qubo.Proofs.Exact

/-! Packing of assignments: the words below `2 ^ n` and the assignments of `n` variables by
zeros and ones are in one-to-one correspondence. Spins carry the same information. -/
namespace Qubo.Bits

/-- A zero or a one for each of `n` variables. -/
def Assigns (n : ℕ) (b : Bits) : Prop := b.IsBinary ∧ b.size = n

instance (n : ℕ) (b : Bits) : Decidable (b.Assigns n) := inferInstanceAs (Decidable (_ ∧ _))

theorem count_eq (n : ℕ) : count n = 2 ^ n := Nat.one_shiftLeft n

theorem isBinary_ofValues (vs : List UInt8) : (ofValues vs).IsBinary := by
  intro v hv
  obtain ⟨u, -, rfl⟩ := List.mem_map.mp hv
  split_ifs <;> simp

theorem isBinary_ofPacked (p n : ℕ) : (ofPacked p n).IsBinary := by
  intro v hv
  obtain ⟨i, -, rfl⟩ := List.mem_map.mp hv
  split_ifs <;> simp

theorem assigns_ofPacked (p n : ℕ) : (ofPacked p n).Assigns n :=
  ⟨isBinary_ofPacked p n, size_ofPacked p n⟩

theorem isBinary_ofSpins {α : Type} [Scalar α] (qs : List α) : (ofSpins qs).IsBinary := by
  intro v hv
  obtain ⟨q, -, rfl⟩ := List.mem_map.mp hv
  split_ifs <;> simp

theorem getElem?_ofPacked {p n i : ℕ} (hi : i < n) :
    (ofPacked p n).values[i]? = some (if p.testBit i then 1 else 0) := by
  simp [ofPacked, hi]

private theorem testBit_foldl_or {β : Type} (f : β → ℕ) (j : ℕ) (xs : List β) (acc : ℕ) :
    (xs.foldl (fun acc x => acc ||| f x) acc).testBit j =
      (acc.testBit j || xs.any fun x => (f x).testBit j) := by
  induction xs generalizing acc with
  | nil => simp
  | cons x xs ih => simp [ih, Nat.testBit_or, Bool.or_assoc]

/-- A value that is zero or one, laid at a position that fits a word, is a single bit. -/
private theorem testBit_laid {v : UInt8} {i : ℕ} (hv : v = 0 ∨ v = 1) (hi : i < 64) (j : ℕ) :
    ((v.toNat <<< i) % UInt64.size).testBit j = decide (v = 1 ∧ i = j) := by
  rcases hv with rfl | rfl
  · simp
  · have hlt : 2 ^ i < UInt64.size := Nat.pow_lt_pow_right (by norm_num) hi
    simp [Nat.one_shiftLeft, Nat.mod_eq_of_lt hlt, Nat.testBit_two_pow]

theorem packed?_eq_some {b : Bits} (hb : b.IsBinary) (hn : b.size ≤ maxPacked) :
    ∃ p, b.packed? = some p ∧ ∀ j, p.testBit j = decide (b.values[j]? = some 1) := by
  refine ⟨_, if_pos hn, fun j => ?_⟩
  refine (testBit_foldl_or (fun x : UInt8 × ℕ => (x.1.toNat <<< x.2) % UInt64.size) j
    b.values.zipIdx 0).trans ?_
  rw [Nat.zero_testBit, Bool.false_or, Bool.eq_iff_iff, List.any_eq_true, decide_eq_true_eq]
  have hlaid (x : UInt8 × ℕ) (hx : x ∈ b.values.zipIdx) :
      ((x.1.toNat <<< x.2) % UInt64.size).testBit j = decide (x.1 = 1 ∧ x.2 = j) := by
    have hlt := List.snd_lt_of_mem_zipIdx hx
    have hmem := List.fst_mem_of_mem_zipIdx hx
    unfold size maxPacked at hn
    exact testBit_laid (hb _ hmem) (by omega) j
  constructor
  · rintro ⟨x, hx, hbit⟩
    rw [hlaid x hx, decide_eq_true_eq] at hbit
    rw [← hbit.1, ← hbit.2]
    exact List.mem_zipIdx_iff_getElem?.mp hx
  · intro h
    have hx : ((1 : UInt8), j) ∈ b.values.zipIdx := List.mem_zipIdx_iff_getElem?.mpr h
    exact ⟨_, hx, by rw [hlaid _ hx]; simp⟩

/-- The word of an assignment gives the assignment back. -/
theorem Assigns.exists_ofPacked {b : Bits} {n : ℕ} (hb : b.Assigns n) (hn : n ≤ maxPacked) :
    ∃ p < 2 ^ n, b.packed? = some p ∧ ofPacked p n = b := by
  obtain ⟨hbinary, rfl⟩ := hb
  obtain ⟨p, hp, hbits⟩ := packed?_eq_some hbinary hn
  have hlt : p < 2 ^ b.size := by
    apply Nat.lt_pow_two_of_testBit
    intro i hi
    rw [hbits, List.getElem?_eq_none hi]
    simp
  refine ⟨p, hlt, hp, congrArg mk (List.ext_getElem? fun i => ?_)⟩
  by_cases hi : i < b.size
  · have hv := hbinary b.values[i] (List.getElem_mem hi)
    rw [List.getElem?_map, List.getElem?_range hi, Option.map_some, hbits,
      List.getElem?_eq_getElem hi]
    rcases hv with h | h <;> simp [h]
  · rw [List.getElem?_eq_none (by simpa using hi), List.getElem?_eq_none (not_lt.mp hi)]

/-- An assignment unpacked from a word is packed into the word's low bits. -/
theorem packed?_ofPacked {n : ℕ} (p : ℕ) (hn : n ≤ maxPacked) :
    (ofPacked p n).packed? = some (p % 2 ^ n) := by
  obtain ⟨r, hr, hbits⟩ := packed?_eq_some (isBinary_ofPacked p n) (by simpa using hn)
  rw [hr, Option.some_inj]
  apply Nat.eq_of_testBit_eq
  intro i
  rw [hbits, Nat.testBit_mod_two_pow]
  by_cases hi : i < n
  · rw [getElem?_ofPacked hi]
    cases p.testBit i <;> simp [hi]
  · rw [List.getElem?_eq_none (by simpa [ofPacked] using hi)]
    simp [hi]

theorem packed?_ofPacked_of_lt {n p : ℕ} (hn : n ≤ maxPacked) (hp : p < 2 ^ n) :
    (ofPacked p n).packed? = some p := by
  rw [packed?_ofPacked p hn, Nat.mod_eq_of_lt hp]

/-- Different words below the bound are different assignments. -/
theorem ofPacked_injOn {n p r : ℕ} (hn : n ≤ maxPacked) (hp : p < 2 ^ n) (hr : r < 2 ^ n)
    (h : ofPacked p n = ofPacked r n) : p = r := by
  have hpr := congrArg packed? h
  rw [packed?_ofPacked_of_lt hn hp, packed?_ofPacked_of_lt hn hr] at hpr
  exact Option.some_inj.mp hpr

theorem reals_ofSpins {qs : List ℚ} (h : ∀ q ∈ qs, q = 1 ∨ q = -1) {i : ℕ} (hi : i < qs.length) :
    (ofSpins qs).reals[i]?.getD 0 = (1 + qs[i]?.getD 0) / 2 := by
  have hq := h qs[i] (List.getElem_mem hi)
  rw [reals, ofSpins, List.map_map, List.getElem?_map, List.getElem?_eq_getElem hi,
    Option.map_some, Option.getD_some, Option.getD_some]
  rcases hq with he | he
  · norm_num [he, UInt8.toNat_one]
  · norm_num [he]

/-- Spins of zeros and ones are read as what they were made from, if that holds of either value. -/
theorem IsBinary.ofSpins_spins_of {α : Type} [Scalar α] {x : Bits} (hx : x.IsBinary)
    (hvalue : ∀ v : UInt8, v = 0 ∨ v = 1 → (if Scalar.zero <
      Scalar.two * ((v.toNat : ℕ) : α) - Scalar.one then (1 : UInt8) else 0) = v) :
    ofSpins (x.spins : List α) = x := by
  have hvalues : (ofSpins (x.spins : List α)).values = x.values := by
    rw [ofSpins, spins, List.map_map]
    exact (List.map_congr_left fun v hv => hvalue v (hx v hv)).trans (List.map_id _)
  cases x
  exact congrArg mk hvalues

theorem IsBinary.ofSpins_spins {x : Bits} (hx : x.IsBinary) : ofSpins (x.spins : List ℚ) = x := by
  refine hx.ofSpins_spins_of fun v hv => ?_
  rcases hv with rfl | rfl
  · simp
  · norm_num [UInt8.toNat_one]

theorem IsBinary.ofSpins_spins_float {x : Bits} (hx : x.IsBinary) :
    ofSpins (x.spins : List Float) = x := by
  refine hx.ofSpins_spins_of fun v hv => ?_
  rcases hv with rfl | rfl <;> decide +kernel

theorem IsBinary.spins_eq_or {x : Bits} (hx : x.IsBinary) :
    ∀ s ∈ (x.spins : List ℚ), s = 1 ∨ s = -1 := by
  intro s hs
  obtain ⟨v, hv, rfl⟩ := List.mem_map.mp hs
  rcases hx v hv with rfl | rfl
  · right
    simp
  · left
    norm_num [UInt8.toNat_one]

end Qubo.Bits

namespace Qubo.BitsPair

/-- A zero or a one for each variable of either layer. -/
def Assigns (n0 n1 : ℕ) (x : BitsPair) : Prop := x.x0.Assigns n0 ∧ x.x1.Assigns n1

instance (n0 n1 : ℕ) (x : BitsPair) : Decidable (x.Assigns n0 n1) :=
  inferInstanceAs (Decidable (_ ∧ _))

end Qubo.BitsPair

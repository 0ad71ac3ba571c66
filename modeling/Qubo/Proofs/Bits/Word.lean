import Mathlib.Tactic
import Qubo.Proofs.Bits

/-! Assignments in 64-bit words: one bit after another is shifted out of a word, and one value after
another is shifted into one. On assignments that are packed at all, the words are the numbers. -/
namespace Qubo.Bits

/-- Shifts the bit of each variable down to the end of the word. -/
def ofWord (p : UInt64) (n : ℕ) : Bits :=
  ⟨(List.range n).map fun i => ((p >>> UInt64.ofNat i) &&& 1).toUInt8⟩

/-- Shifts each value up to its own position; none when there are more than 63. -/
def word? (b : Bits) : Option UInt64 :=
  if maxPacked < b.size then none
  else some (b.values.zipIdx.foldl (fun acc (v, i) => acc ||| (v.toUInt64 <<< UInt64.ofNat i)) 0)

private theorem toNat_ofNat_mod {i : ℕ} (hi : i < 64) : (UInt64.ofNat i).toNat % 64 = i := by
  rw [UInt64.toNat_ofNat']
  omega

theorem toUInt8_shiftRight_and_one (p : UInt64) {i : ℕ} (hi : i < 64) :
    ((p >>> UInt64.ofNat i) &&& 1).toUInt8 = if p.toNat.testBit i then 1 else 0 := by
  apply UInt8.toNat_inj.mp
  rw [UInt64.toNat_toUInt8, UInt64.toNat_and, UInt64.toNat_shiftRight, toNat_ofNat_mod hi,
    UInt64.toNat_one, Nat.and_one_is_mod, Nat.shiftRight_eq_div_pow, Nat.testBit_eq_decide_div_mod_eq]
  by_cases hbit : p.toNat / 2 ^ i % 2 = 1
  · simp [hbit]
  · simp [Nat.mod_two_ne_one.mp hbit]

theorem ofWord_eq {n : ℕ} (hn : n ≤ 64) (p : UInt64) : ofWord p n = ofPacked p.toNat n := by
  rw [ofWord, ofPacked, mk.injEq]
  refine List.map_congr_left fun i hi => ?_
  exact toUInt8_shiftRight_and_one p ((List.mem_range.mp hi).trans_le hn)

private theorem toNat_foldl_or (xs : List (UInt8 × ℕ)) (hxs : ∀ x ∈ xs, x.2 < 64) (acc : UInt64) :
    (xs.foldl (fun acc (v, i) => acc ||| (v.toUInt64 <<< UInt64.ofNat i)) acc).toNat =
      xs.foldl (fun acc (v, i) => acc ||| (v.toNat <<< i) % UInt64.size) acc.toNat := by
  induction xs generalizing acc with
  | nil => rfl
  | cons x xs ih =>
    obtain ⟨hx, hxs⟩ := List.forall_mem_cons.mp hxs
    rw [List.foldl_cons, List.foldl_cons, ih hxs, UInt64.toNat_or, UInt64.toNat_shiftLeft,
      UInt8.toNat_toUInt64, toNat_ofNat_mod hx]

/-- Whatever the values are, shifting them into a word gives their number. -/
theorem map_toNat_word? (b : Bits) : b.word?.map UInt64.toNat = b.packed? := by
  unfold word? packed?
  by_cases hn : b.size ≤ maxPacked
  · have hpositions (x : UInt8 × ℕ) (hx : x ∈ b.values.zipIdx) : x.2 < 64 := by
      have hlt := List.snd_lt_of_mem_zipIdx hx
      unfold size maxPacked at hn
      omega
    rw [if_neg (not_lt.mpr hn), if_pos hn, Option.map_some, toNat_foldl_or _ hpositions]
    rfl
  · rw [if_pos (not_le.mp hn), if_neg hn, Option.map_none]

theorem word?_eq_some_iff {b : Bits} {p : UInt64} :
    b.word? = some p ↔ b.packed? = some p.toNat := by
  rw [← map_toNat_word?]
  constructor
  · intro h
    rw [h, Option.map_some]
  · intro h
    obtain ⟨r, hr, hrp⟩ := Option.map_eq_some_iff.mp h
    rw [hr, UInt64.toNat_inj.mp hrp]

theorem word?_eq_none_iff {b : Bits} : b.word? = none ↔ maxPacked < b.size := by
  unfold word?
  split_ifs with h <;> simp [h]

end Qubo.Bits

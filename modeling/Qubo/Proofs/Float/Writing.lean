import Mathlib.Tactic
import Qubo.Json.Value
import Qubo.Proofs.Decimal.Shortest
import Qubo.Proofs.Float.Reading
import Qubo.Proofs.Json.Numeral

/-! The numerals that floats and whole numbers are written as. Every finite float has one, it is
well formed, and whole numbers of a word are read back. -/
namespace Qubo.Float64
open Decimal Scalar

section Parts
variable {x : Float}

/-- The exponent field of a finite float is not full. -/
theorem biased_ne_of_isFinite (h : IsFinite x) : rank x / 2 ^ 52 % 2 ^ 11 ≠ 2047 := by
  intro hfull
  have hexponent := (unpackExponent_eq_iff x (-1#11)).mpr hfull
  have hunpack : x.toModel.unpack = Float.Model.UnpackedFloat.unpack Float.Model.Format.binary64
      x.toModel.toBits.toBitVec := rfl
  unfold Float.Model.UnpackedFloat.unpack at hunpack
  dsimp only at hunpack
  rw [if_pos hexponent] at hunpack
  rcases isFinite_iff.mp h with ⟨s, hs⟩ | ⟨s, m, e, hm, hs⟩ <;> rw [hs] at hunpack <;>
    split at hunpack <;> cases hunpack

/-- A finite float has a significand and an exponent. -/
theorem exists_parts (h : IsFinite x) :
    ∃ negative m q, Parts.ofFloat x = .finite negative m q := by
  have hbiased : x.toBits.toNat >>> 52 % 2048 ≠ 2047 := by
    rw [Nat.shiftRight_eq_div_pow]
    exact biased_ne_of_isFinite h
  rw [Parts.ofFloat, if_neg hbiased]
  split <;> exact ⟨_, _, _, rfl⟩

theorem bounds_of_parts {negative : Bool} {m : ℕ} {q : ℤ}
    (h : Parts.ofFloat x = .finite negative m q) : m < 2 ^ 53 ∧ q ≤ 971 := by
  have hfraction : x.toBits.toNat % hiddenBit < hiddenBit := Nat.mod_lt _ (by decide)
  have hhidden : hiddenBit = 2 ^ 52 := rfl
  have hbiased := Nat.mod_lt (x.toBits.toNat >>> 52) (show 0 < 2048 by decide)
  rw [Parts.ofFloat] at h
  split_ifs at h
  · obtain ⟨-, rfl, rfl⟩ := Parts.finite.inj h
    exact ⟨by omega, by decide⟩
  · obtain ⟨-, rfl, rfl⟩ := Parts.finite.inj h
    exact ⟨by omega, by omega⟩

end Parts

section Numerals
open Json Numeral
variable {x : Float}

theorem ofFloat?_eq {negative : Bool} {m : ℕ} {q : ℤ} (h : Parts.ofFloat x = .finite negative m q) :
    ofFloat? x = some (if m = 0 then ofScientific negative [.zero] 0 else
      ofScientific negative (scientific (shortest m q).1 (shortest m q).2).1
        (scientific (shortest m q).1 (shortest m q).2).2) := by
  rw [ofFloat?, h]
  dsimp only
  split <;> rfl

/-- What is written as a numeral has a significand and an exponent. -/
theorem exists_parts_of_ofFloat? {n : Numeral} (h : ofFloat? x = some n) :
    ∃ negative m q, Parts.ofFloat x = .finite negative m q := by
  rw [ofFloat?] at h
  split at h
  next negative m q hparts => exact ⟨negative, m, q, hparts⟩
  next => cases h

/-- Floats are written as numerals of the grammar. -/
theorem wellFormed_of_ofFloat? {n : Numeral} (h : ofFloat? x = some n) : n.WellFormed := by
  obtain ⟨negative, m, q, hparts⟩ := exists_parts_of_ofFloat? h
  obtain ⟨hm, -⟩ := bounds_of_parts hparts
  obtain rfl := Option.some.inj ((ofFloat?_eq hparts).symm.trans h)
  split
  case isTrue => exact wellFormed_ofScientific (List.cons_ne_nil _ _) fun _ => ⟨rfl, rfl⟩
  case isFalse hne =>
    have hc := (isShort_shortest q (Nat.pos_of_ne_zero hne) hm).pos
    obtain ⟨ds, k, hscientific, -, hds, hhead⟩ := scientific_spec (shortest m q).2 hc.ne'
    rw [hscientific]
    exact wellFormed_ofScientific hds fun hzero => absurd hzero hhead

/-- Every finite float is written as a numeral of the grammar. -/
theorem exists_ofFloat? (h : IsFinite x) : ∃ n, ofFloat? x = some n ∧ n.WellFormed := by
  obtain ⟨negative, m, q, hparts⟩ := exists_parts h
  exact ⟨_, ofFloat?_eq hparts, wellFormed_of_ofFloat? (ofFloat?_eq hparts)⟩

/-- Digits are taken up as long as their value fits a word. -/
theorem absorb_of_lt {ds : List Digit} {a : ℕ} (h : a * 10 ^ ds.length + value ds < UInt64.size) :
    absorb a ds = (a * 10 ^ ds.length + value ds, []) := by
  induction ds generalizing a with
  | nil => simp [absorb, value]
  | cons d ds ih =>
    have hnext : a * 10 ^ (d :: ds).length + value (d :: ds) =
        (10 * a + d.val) * 10 ^ ds.length + value ds := by
      rw [value_cons, List.length_cons, pow_succ]
      ring
    rw [hnext] at h ⊢
    have hlt : 10 * a + d.val < UInt64.size :=
      (Nat.le_mul_of_pos_right _ (by positivity)).trans_lt (Nat.lt_of_add_right_lt h)
    rw [absorb, if_pos hlt, ih h]

theorem toWord?_ofNat {n : ℕ} (h : n < UInt64.size) : (Numeral.ofNat n).toWord? = some n := by
  simp [toWord?, Numeral.ofNat, isWhole, h]

/-- Words stay in range as long as they are not multiplied by a power of ten. -/
theorem isSome_scale_of_nonpos (w : UInt64) {e : ℤ} (he : e ≤ 0) :
    (scale 3 w.toFloat e).isSome = true := by
  rcases he.lt_or_eq with hneg | rfl
  · have hcount : (12 : ℤ) + 53 * ((3 : ℕ) + 1) ≤ 971 := by decide
    obtain ⟨y, hy, -⟩ := exists_scale_of_neg hneg (by decide) hcount (upTo_toFloat w)
    rw [hy]
    rfl
  · have hone : (powerOfTen 0).toModel.unpack = .finite .positive (2 ^ 52) (-52) (by decide) := rfl
    have hproduct : IsFinite (w.toFloat * powerOfTen 0) :=
      isFinite_of_upTo (upTo_mul (k := 14) (by decide) (by decide) (j := -52) (by decide)
        (upTo_toFloat w) (by rw [hone]; exact le_refl (-52 : ℤ)))
    rw [scale, if_pos (by decide), if_pos le_rfl]
    exact congrArg Option.isSome
      (if_neg (Bool.eq_false_iff.mp (beq_infinity_of_isFinite hproduct)))

/-- Digits after the point only make a number smaller. -/
theorem isSome_magnitude?_of_word {n : Numeral} (hexponent : n.exponent = none)
    (hwhole : value n.whole < UInt64.size) : n.magnitude?.isSome = true := by
  have habsorb : absorb 0 n.whole = (value n.whole, []) := by
    rw [absorb_of_lt (by simpa using hwhole), Nat.zero_mul, Nat.zero_add]
  rw [magnitude?, habsorb, hexponent]
  apply isSome_scale_of_nonpos
  simp

theorem isSome_toFloat?_ofNat {n : ℕ} (h : n < UInt64.size) :
    (Numeral.ofNat n).toFloat?.isSome = true := by
  rw [toFloat?, Option.isSome_map]
  apply isSome_magnitude?_of_word rfl
  show value (digits n) < UInt64.size
  rwa [value_digits]

end Numerals

end Qubo.Float64

import Mathlib.Tactic
import Qubo.Proofs.Float.Rounding
import Qubo.Proofs.Float.Writing
import Qubo.Proofs.Json.RoundTrip

/-! Every number that is written for a float is read again: neither its significand nor the power of
ten takes it beyond the range of floats. -/
namespace Qubo.Float64
open Decimal Json Json.Numeral Scalar

section Products

/-- A whole number whose last bits are zero, so that a float holds it. -/
theorem exists_canonical {n : ℕ} (hn : 0 < n) (hlog : n.log2 < 1024)
    (hdvd : 2 ^ (n.log2 - 52) ∣ n) : ∃ k t, Canonical k t ∧ (n : ℚ) = k * 2 ^ t := by
  have hlower := Nat.log2_self_le hn.ne'
  have hupper : n < 2 ^ (n.log2 + 1) := Nat.lt_log2_self
  rcases Nat.le_total n.log2 52 with hle | hle
  · obtain ⟨d, hd⟩ := Nat.exists_eq_add_of_le hle
    have hsplit : 2 ^ n.log2 * 2 ^ d = 2 ^ 52 := by rw [← pow_add, ← hd]
    refine ⟨n * 2 ^ d, -d, ⟨by positivity, ?_, by omega, by omega, .inl ?_⟩, ?_⟩
    · calc n * 2 ^ d < 2 ^ (n.log2 + 1) * 2 ^ d := by gcongr
        _ = 2 ^ 53 := by rw [pow_succ, mul_right_comm, hsplit, ← pow_succ]
    · exact hsplit.symm.trans_le (Nat.mul_le_mul_right _ hlower)
    · rw [zpow_neg, zpow_natCast]
      push_cast
      field_simp
  · obtain ⟨k, hk⟩ := hdvd
    obtain ⟨d, hd⟩ := Nat.exists_eq_add_of_le hle
    rw [show n.log2 - 52 = d by omega] at hk
    have hpow : 0 < 2 ^ d := Nat.two_pow_pos d
    refine ⟨k, d, ⟨?_, ?_, by omega, by omega, .inl ?_⟩, ?_⟩
    · exact Nat.pos_of_ne_zero fun hzero => by simp [hzero] at hk; omega
    · apply Nat.lt_of_mul_lt_mul_left (a := 2 ^ d)
      rwa [← hk, ← pow_add, show d + 53 = n.log2 + 1 by omega]
    · apply Nat.le_of_mul_le_mul_left (c := 2 ^ d) _ hpow
      rwa [← hk, ← pow_add, show d + 52 = n.log2 by omega]
    · rw [zpow_natCast, mul_comm]
      exact_mod_cast hk

/-- Half a place above the largest float but one. -/
@[irreducible] def decimalBound : ℕ := (2 ^ 54 - 3) * 2 ^ 970

/-- The largest significand that is written with a power of ten, but for that of the largest
float. -/
def lastSignificand (k : ℕ) : ℕ := min (15 * 10 ^ 16) (decimalBound / 10 ^ k)

theorem lastSignificand_in_range : ∀ i < 22,
    0 < lastSignificand (287 + i) ∧
    2 ^ ((lastSignificand (287 + i)).log2 - 52) ∣ lastSignificand (287 + i) ∧
    (positive? (powerOfTen (287 + i)).toModel.unpack).any (fun (m, e) => 2 ^ 52 ≤ m ∧ 0 ≤ e ∧
      lastSignificand (287 + i) * (m * 2 ^ e.toNat) < (2 ^ 54 - 1) * 2 ^ 970) = true := by
  decide +kernel

/-- The product is in range, though it is rounded twice before. -/
theorem isFinite_product {c k : ℕ} (hk : k ≤ 308) (hc : c < 15 * 10 ^ 16)
    (hle : c * 10 ^ k ≤ decimalBound) : IsFinite ((UInt64.ofNat c).toFloat * powerOfTen k) := by
  have hword : (UInt64.ofNat c).toNat = c := UInt64.toNat_ofNat_of_lt' (hc.trans (by decide))
  rcases Nat.lt_or_ge k 287 with hsmall | hlarge
  · obtain ⟨m, e, hm, hu, -, he⟩ := unpack_powerOfTen hk
    have hlog : (10 ^ k).log2 < 10 * 95 + 4 := log2_ten_pow_lt (Nat.le_of_lt_succ hsmall)
    refine isFinite_of_upTo (upTo_mul (k := 971) (by decide) le_rfl (i := 6) (j := 911) (by decide)
      (upTo_toFloat_of_lt (b := 58) (by decide) (by decide) ?_) ?_)
    · rw [hword]
      exact hc.trans (by decide)
    · rw [hu]
      show e ≤ 911
      omega
  · obtain ⟨i, rfl⟩ := Nat.exists_eq_add_of_le hlarge
    obtain ⟨hpos, hdvd, hany⟩ := lastSignificand_in_range i (by omega)
    obtain ⟨⟨m, e⟩, hsome, hrange⟩ := (Option.any_eq_true _ _).mp hany
    obtain ⟨hfull, he, hrange⟩ := of_decide_eq_true hrange
    obtain ⟨hm, hu⟩ := unpack_of_positive? hsome
    have hlast : lastSignificand (287 + i) ≤ 15 * 10 ^ 16 := Nat.min_le_left _ _
    have hclast : c ≤ lastSignificand (287 + i) :=
      Nat.le_min.mpr ⟨hc.le, (Nat.le_div_iff_mul_le (by positivity)).mpr hle⟩
    have hlog : (lastSignificand (287 + i)).log2 < 58 := by
      rw [Nat.log2_lt hpos.ne']
      exact hlast.trans_lt (by decide)
    obtain ⟨k, t, hcanonical, hvalue⟩ := exists_canonical hpos (hlog.trans (by decide)) hdvd
    obtain ⟨e, rfl⟩ := Int.eq_ofNat_of_zero_le he
    refine isFinite_mul_of_lt hcanonical (rank_toFloat_le hcanonical ?_) hu hfull ?_
    · rw [hword, ← hvalue]
      exact_mod_cast hclast
    · rw [← hvalue, zpow_natCast, zpow_ofNat]
      have hcast := (Nat.cast_lt (α := ℚ)).mpr hrange
      simpa only [Nat.cast_mul, Nat.cast_pow, Nat.cast_ofNat, Int.toNat_natCast] using hcast

end Products

section Numerals

theorem lt_of_pow_le {k : ℕ} (h : (10 : ℚ) ^ k ≤ decimalBound) : k < 309 := by
  by_contra hk
  have hle : 10 ^ k ≤ decimalBound := by exact_mod_cast h
  have hlt : decimalBound < 10 ^ k :=
    lt_of_lt_of_le (by decide +kernel) (Nat.pow_le_pow_right (by decide) (not_lt.mp hk))
  exact absurd hle (not_le.mpr hlt)

theorem isSome_scale_of_le {c : ℕ} {e : ℤ} (hpos : 0 < c) (hfew : c < 15 * 10 ^ 16)
    (hle : (c : ℚ) * 10 ^ e ≤ decimalBound) :
    (scale 3 (UInt64.ofNat c).toFloat e).isSome = true := by
  rcases le_or_gt e 0 with he | he
  · exact isSome_scale_of_nonpos _ he
  obtain ⟨k, rfl⟩ := Int.eq_ofNat_of_zero_le he.le
  rw [zpow_natCast] at hle
  have hone : (1 : ℚ) ≤ c := by exact_mod_cast hpos
  have hk : k ≤ 308 :=
    Nat.le_of_lt_succ (lt_of_pow_le ((le_mul_of_one_le_left (by positivity) hone).trans hle))
  have hle : c * 10 ^ k ≤ decimalBound := by exact_mod_cast hle
  rw [scale, if_pos (by simpa using hk), if_pos he.le, Int.natAbs_natCast]
  exact congrArg Option.isSome
    (if_neg (Bool.eq_false_iff.mp (beq_infinity_of_isFinite (isFinite_product hk hfew hle))))

/-- Digits with an exponent are read as the number that they were written for. -/
theorem isSome_magnitude?_of_exponent {d : Digit} {ds : List Digit} {e : ℤ} (negative : Bool)
    (hd : d ≠ .zero) (hfew : value (d :: ds) < 15 * 10 ^ 16)
    (hle : (value (d :: ds) : ℚ) * 10 ^ (e - ds.length) ≤ decimalBound) :
    (Numeral.magnitude? ⟨negative, [d], ds, some ⟨if 0 ≤ e then .plus else .minus,
      digits e.natAbs⟩⟩).isSome = true := by
  have hpos : 0 < value (d :: ds) := (Nat.pow_pos (by decide)).trans_le (pow_length_le_value hd ds)
  have hwhole : absorb 0 [d] = (d.val, []) := by
    rw [absorb_of_lt (by have := d.isLt; simp [value, UInt64.size]; omega)]
    simp [value]
  have hall : absorb d.val ds = (value (d :: ds), []) := by
    rw [value_cons] at hfew ⊢
    exact absorb_of_lt (hfew.trans (by decide))
  have hscale := isSome_scale_of_le hpos hfew hle
  simp only [magnitude?, hwhole, hall, value_digits, List.length_nil, Nat.sub_zero, Nat.cast_zero,
    zero_sub]
  rcases le_or_gt 0 e with he | he
  · have hexponent : ¬ maxExponent < e.natAbs := by
      intro hlarge
      have hlead : (10 : ℚ) ^ e.natAbs ≤ decimalBound := by
        calc (10 : ℚ) ^ e.natAbs = 10 ^ ds.length * 10 ^ (e - ds.length) := by
              rw [← zpow_natCast, ← zpow_natCast, ← zpow_add₀ (by norm_num)]
              congr 1
              omega
          _ ≤ value (d :: ds) * 10 ^ (e - ds.length) := by
              gcongr
              exact_mod_cast pow_length_le_value hd ds
          _ ≤ decimalBound := hle
      have hsmall := lt_of_pow_le hlead
      have hmax : maxExponent = 2147483647 := rfl
      omega
    rw [if_pos he, if_neg hexponent, if_neg (by decide)]
    rwa [show -(ds.length : ℤ) + e.natAbs = e - ds.length by omega]
  · rw [if_neg (not_le.mpr he)]
    by_cases hlarge : maxExponent < e.natAbs
    · rw [if_pos hlarge, if_neg fun hnone => hnone.2 rfl]
      rfl
    · rw [if_neg hlarge, if_pos rfl]
      rwa [show -(ds.length : ℤ) - e.natAbs = e - ds.length by omega]

theorem isSome_magnitude?_ofScientific {ds : List Digit} {e : ℤ} (negative : Bool) (hds : ds ≠ [])
    (hlead : ds.head? ≠ some .zero) (hfew : value ds < 15 * 10 ^ 16)
    (hle : (value ds : ℚ) * 10 ^ (e - ds.length + 1) ≤ decimalBound) :
    (ofScientific negative ds e).magnitude?.isSome = true := by
  obtain ⟨d, ds, rfl⟩ := List.exists_cons_of_ne_nil hds
  by_cases hnear : positional e = true
  · rw [ofScientific, if_pos hnear]
    split_ifs with hsign
    · refine isSome_magnitude?_of_word rfl ((value_lt _).trans ?_)
      have hlength : e.toNat + 1 ≤ 16 := by
        simp only [positional, Bool.and_eq_true, decide_eq_true_eq] at hnear
        omega
      refine (Nat.pow_le_pow_right (by decide) (?_ : _ ≤ 16)).trans_lt (by decide)
      simp
      omega
    · refine isSome_magnitude?_of_word rfl ?_
      show value [Digit.zero] < UInt64.size
      decide
  · rw [ofScientific, if_neg hnear]
    apply isSome_magnitude?_of_exponent negative (fun hzero => hlead (by rw [hzero]; rfl)) hfew
    rwa [show e - ds.length = e - (d :: ds).length + 1 by push_cast [List.length_cons]; ring]

section Floats
variable {x : Float} {m c : ℕ} {q p : ℤ}

/-- The decimals of all floats but the largest. -/
theorem le_decimalBound (h : IsShort m q c p) (hm : m < 2 ^ 53) (hq : q ≤ 971)
    (hlast : ¬ (m = 2 ^ 53 - 1 ∧ q = 971)) : (c : ℚ) * 10 ^ p ≤ decimalBound := by
  have hbound : (decimalBound : ℚ) = (2 ^ 54 - 3 : ℕ) * 2 ^ (970 : ℤ) := by
    unfold decimalBound
    simp only [Nat.cast_mul, Nat.cast_pow, Nat.cast_ofNat, zpow_ofNat]
  have hpow : (0 : ℚ) < 2 ^ (970 : ℤ) := by positivity
  rw [hbound]
  refine h.le.trans ?_
  rcases hq.lt_or_eq with hlt | rfl
  · have hm : (m : ℚ) + 1 / 2 ≤ (2 ^ 54 - 3 : ℕ) := by
      have hm : (m : ℚ) < 9007199254740992 := by exact_mod_cast hm
      norm_num
      linarith
    exact mul_le_mul hm (zpow_le_zpow_right₀ one_le_two (by omega)) (by positivity)
      (Nat.cast_nonneg _)
  · have hm : (m : ℚ) + 1 / 2 ≤ (2 ^ 54 - 3 : ℕ) / 2 := by
      have hm : (m : ℚ) + 2 ≤ 9007199254740992 := by exact_mod_cast (by omega : m + 2 ≤ 2 ^ 53)
      norm_num
      linarith
    rw [show (971 : ℤ) = 970 + 1 by norm_num, zpow_add_one₀ two_ne_zero]
    calc ((m : ℚ) + 1 / 2) * (2 ^ (970 : ℤ) * 2) ≤ (2 ^ 54 - 3 : ℕ) / 2 * (2 ^ (970 : ℤ) * 2) :=
          mul_le_mul_of_nonneg_right hm (mul_pos hpow two_pos).le
      _ = (2 ^ 54 - 3 : ℕ) * 2 ^ (970 : ℤ) := by rw [div_mul_eq_mul_div, ← mul_assoc,
          mul_div_assoc, div_self two_ne_zero, mul_one]

/-- Whatever number a float is written as, it is read as a float. -/
theorem isSome_toFloat?_of_ofFloat? {n : Numeral} (h : ofFloat? x = some n) :
    n.toFloat?.isSome = true := by
  obtain ⟨negative, m, q, hparts⟩ := exists_parts_of_ofFloat? h
  obtain ⟨hm, hq⟩ := bounds_of_parts hparts
  obtain rfl := Option.some.inj ((ofFloat?_eq hparts).symm.trans h)
  rw [toFloat?, Option.isSome_map]
  split
  case isTrue =>
    apply isSome_magnitude?_of_word rfl
    show value [Digit.zero] < UInt64.size
    decide
  case isFalse hne =>
    by_cases hlast : m = 2 ^ 53 - 1 ∧ q = 971
    · obtain ⟨rfl, rfl⟩ := hlast
      cases negative <;> decide +kernel
    have hshort := isShort_shortest q (Nat.pos_of_ne_zero hne) hm
    have hbound := le_decimalBound hshort hm hq hlast
    obtain ⟨ds, k, hscientific, hvalue, hds, hhead⟩ :=
      scientific_spec (shortest m q).2 hshort.pos.ne'
    rw [hscientific]
    apply isSome_magnitude?_ofScientific negative hds hhead
    · exact (Nat.le_mul_of_pos_right _ (by positivity)).trans_lt (hvalue ▸ hshort.few)
    · refine le_trans (le_of_eq ?_) hbound
      rw [hvalue, show (shortest m q).2 + k + ds.length - 1 - ds.length + 1 =
        k + (shortest m q).2 by ring, zpow_add₀ (by norm_num), zpow_natCast]
      push_cast
      ring

theorem fits_ofFloat (levels : ℕ) (x : Float) : (Json.ofFloat x).Fits levels := by
  rw [Json.ofFloat]
  split
  next n hn => exact wellFormed_of_ofFloat? hn
  next => trivial

/-- Every float is written as a value that can be held. -/
theorem isReadable_ofFloat (x : Float) : (Json.ofFloat x).isReadable = true := by
  rw [Json.ofFloat]
  split
  next n hn => exact isSome_toFloat?_of_ofFloat? hn
  next => rfl

end Floats

end Numerals

end Qubo.Float64

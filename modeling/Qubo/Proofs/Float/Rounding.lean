import Mathlib.Tactic
import Qubo.Proofs.Float.Reading

/-! Rounding to the nearest float: it never passes a float from which the exact value is less than
half a place away. Hence a whole number is rounded to no more than a float above it, and a product
is finite if the exact one is in range. -/
namespace Qubo.Float64
open Float.Model Float.Model.UnpackedFloat Scalar

section Values
variable {m k : ℕ} {e t : ℤ}

/-- Patterns are ordered as the numbers that they stand for. -/
theorem value_le_of_finiteRank_le (h : Canonical m e) (h' : Canonical k t)
    (hle : finiteRank m e ≤ finiteRank k t) : (m : ℚ) * 2 ^ e ≤ k * 2 ^ t := by
  have hnot := (finiteRank_lt_iff h' h).not.mp (not_lt.mpr hle)
  rcases lt_or_ge e t with hlt | hge
  · have hm : (m : ℚ) ≤ 2 ^ 53 := by exact_mod_cast h.lt.le
    have hk : (2 : ℚ) ^ 52 ≤ k := by
      exact_mod_cast h'.full.resolve_right (by have := h.le_exponent; omega)
    calc (m : ℚ) * 2 ^ e ≤ 2 ^ 53 * 2 ^ e := by gcongr
      _ = 2 ^ 52 * 2 ^ (e + 1) := by
        rw [zpow_add_one₀ two_ne_zero]
        ring
      _ ≤ 2 ^ 52 * 2 ^ t := by
        gcongr
        · exact one_le_two
        · omega
      _ ≤ k * 2 ^ t := by gcongr
  · obtain rfl : t = e := by omega
    have hm : (m : ℚ) ≤ k := by exact_mod_cast (by omega : m ≤ k)
    gcongr

/-- A float without a minus sign is finite if it is no larger than a finite one. -/
theorem isFinite_of_rank_le {x : Float} (h : Canonical k t) (hle : rank x ≤ finiteRank k t) :
    IsFinite x := by
  have hlt := hle.trans_lt (finiteRank_lt h)
  rcases unpack_of_isNonneg hlt.le with ⟨-, hu⟩ | ⟨hrank, -⟩ | ⟨m, e, hc, -, hu⟩
  · exact isFinite_iff.mpr (.inl ⟨_, hu⟩)
  · exact absurd hrank hlt.ne
  · exact isFinite_iff.mpr (.inr ⟨_, m, e, hc.pos, hu⟩)

end Values

section Rounding
variable {p k : ℕ} {e t : ℤ}

/-- Less than half a place above a significand is still in its binade. -/
theorem value_lt_binade (hk : k < 2 ^ 53) (t : ℤ) :
    ((k : ℚ) + 1 / 2) * 2 ^ t < 2 ^ (t + 53) := by
  have hhalf : (k : ℚ) + 1 / 2 < 2 ^ (53 : ℤ) := by
    have hnext : (k : ℚ) + 1 ≤ (2 ^ 53 : ℕ) := by exact_mod_cast hk
    norm_num at hnext ⊢
    linarith
  rw [zpow_add₀ two_ne_zero, mul_comm ((2 : ℚ) ^ t)]
  exact mul_lt_mul_of_pos_right hhalf (by positivity)

theorem binade_le_value {s : ℕ} (hp : 2 ^ (s + 52) ≤ p) (e : ℤ) :
    (2 : ℚ) ^ (e + s + 52) ≤ p * 2 ^ e := by
  have hcast : (2 : ℚ) ^ ((s : ℤ) + 52) ≤ p := by exact_mod_cast hp
  rw [show e + s + 52 = (s + 52 : ℤ) + e by ring, zpow_add₀ two_ne_zero]
  exact mul_le_mul_of_nonneg_right hcast (by positivity)

theorem rank_round_le (hp : 0 < p) (he : e ≤ max ((p.log2 : ℤ) + 1 + e - 53) (-1074))
    (h : Canonical k t) (hlt : (p : ℚ) * 2 ^ e < (k + 1 / 2) * 2 ^ t) :
    rank (.ofModel (.pack (roundWithAccuracy Format.binary64 .positive p e .exact))) ≤
      finiteRank k t := by
  obtain ⟨r, s, hrank, hst, hr, hround, hlower⟩ := exists_rounded hp he
  obtain ⟨-, hk, ht, ht', hfull⟩ := h
  -- A number that is rounded at a higher exponent fills all bits there.
  have hexponent : e + s ≤ t := by
    by_contra habove
    have hle := binade_le_value (hlower.resolve_right (by omega)).1 e
    have hbinade := zpow_le_zpow_right₀ (one_le_two (α := ℚ)) (show t + 53 ≤ e + s + 52 by omega)
    linarith [value_lt_binade hk t]
  have hlast : e + s = t → r ≤ k := by
    rintro rfl
    apply hround
    rw [zpow_add₀ two_ne_zero, zpow_natCast, mul_comm ((2 : ℚ) ^ e), ← mul_assoc] at hlt
    have hhalf := lt_of_mul_lt_mul_right hlt (by positivity)
    have hdouble : (2 * p : ℚ) < 2 ^ s * (2 * k + 1) := by linarith
    exact_mod_cast hdouble
  rw [hrank (by omega)]
  unfold finiteRank
  rcases hexponent.lt_or_eq with hbelow | heq
  · omega
  · have := hlast heq
    rw [heq]
    omega

end Rounding

section Words
variable {w : UInt64} {k : ℕ} {t : ℤ}

/-- A word is rounded to no more than a float that is not below it. -/
theorem rank_toFloat_le (h : Canonical k t) (hle : (w.toNat : ℚ) ≤ k * 2 ^ t) :
    rank w.toFloat ≤ finiteRank k t := by
  have htoFloat : w.toFloat =
      .ofModel (.pack (UnpackedFloat.normalize Format.binary64 w.toNat 0 .positive)) := rfl
  rw [htoFloat]
  rcases Nat.eq_zero_or_pos w.toNat with hzero | hpos
  · have hnormalize : UnpackedFloat.normalize Format.binary64 ((0 : ℕ) : ℤ) 0 .positive =
        .zero .positive := rfl
    rw [hzero, hnormalize, rank_pack_zero]
    exact Nat.zero_le _
  unfold UnpackedFloat.normalize
  rw [compare_gt_iff_gt.mpr (by exact_mod_cast hpos)]
  have htarget : Format.binary64.targetExponent (totalExponent w.toNat 0) =
      max ((w.toNat.log2 : ℤ) + 1 + 0 - 53) (-1074) := targetExponent_eq _
  simp only [UnpackedFloat.round, decreaseExponent, Int.toNat_natCast, htarget]
  generalize hs : (0 - max ((w.toNat.log2 : ℤ) + 1 + 0 - 53) (-1074)).toNat = s
  apply rank_round_le
  · rw [Nat.shiftLeft_eq]
    exact Nat.mul_pos hpos (Nat.two_pow_pos s)
  · rw [log2_shiftLeft hpos]
    omega
  · exact h
  · have hvalue : ((w.toNat <<< s : ℕ) : ℚ) * 2 ^ (0 - (s : ℤ)) = w.toNat := by
      rw [Nat.shiftLeft_eq, zero_sub, zpow_neg, zpow_natCast]
      push_cast
      field_simp
    rw [hvalue]
    have hpow : (0 : ℚ) < 2 ^ t := by positivity
    linarith

end Words

section Products
variable {x y : Float} {m k : ℕ} {e t : ℤ}

theorem canonical_last : Canonical (2 ^ 53 - 1) 971 :=
  ⟨by decide, by decide, by decide, by decide, .inl (by decide)⟩

theorem half_above_last (t : ℤ) :
    (((2 ^ 53 - 1 : ℕ) : ℚ) + 1 / 2) * 2 ^ (t + 1) = (2 ^ 54 - 1 : ℕ) * 2 ^ t := by
  rw [zpow_add_one₀ two_ne_zero]
  norm_num
  ring

/-- A product is in range if it is so for a float that is not below the first factor. -/
theorem isFinite_mul_of_lt (h : Canonical k t) (hx : rank x ≤ finiteRank k t) {hm : 0 < m}
    (hy : y.toModel.unpack = .finite .positive m e hm) (hfull : 2 ^ 52 ≤ m)
    (hlt : (k : ℚ) * 2 ^ t * (m * 2 ^ e) < (2 ^ 54 - 1 : ℕ) * 2 ^ (970 : ℤ)) : IsFinite (x * y) := by
  rw [mul_eq, hy]
  have hxlt := hx.trans_lt (finiteRank_lt h)
  rcases unpack_of_isNonneg hxlt.le with ⟨-, hu⟩ | ⟨hrank, -⟩ | ⟨m', e', hc, hrank, hu⟩
  · rw [hu]
    exact isFinite_iff.mpr (.inl ⟨_, unpack_pack_zero _⟩)
  · exact absurd hrank hxlt.ne
  · rw [hu]
    refine isFinite_of_rank_le canonical_last (rank_round_le (Nat.mul_pos hc.pos hm) ?_
      canonical_last ?_)
    · have hlog : 52 ≤ (m' * m).log2 := by
        rw [Nat.le_log2 (Nat.mul_pos hc.pos hm).ne']
        exact hfull.trans (Nat.le_mul_of_pos_left m hc.pos)
      omega
    · have hvalue := value_le_of_finiteRank_le hc h (hrank.symm.trans_le hx)
      calc ((m' * m : ℕ) : ℚ) * 2 ^ (e' + e) = m' * 2 ^ e' * (m * 2 ^ e) := by
            rw [zpow_add₀ two_ne_zero]
            push_cast
            ring
        _ ≤ k * 2 ^ t * (m * 2 ^ e) := mul_le_mul_of_nonneg_right hvalue (by positivity)
        _ < (2 ^ 54 - 1 : ℕ) * 2 ^ (970 : ℤ) := hlt
        _ = (((2 ^ 53 - 1 : ℕ) : ℚ) + 1 / 2) * 2 ^ (971 : ℤ) := (half_above_last 970).symm

end Products

end Qubo.Float64

import Mathlib.Tactic
import Qubo.Proofs.Energy
import Qubo.Proofs.Float.Shrink

/-! Finite machine floats: which operations keep away from infinity, by a bound on the exponent of
their results, and that the coefficients of random problems are among them. -/
namespace Qubo.Float64
open Float.Model Float.Model.UnpackedFloat

/-- Zero, or a significand at an exponent of at most `k`. -/
def UpTo (k : ℤ) : UnpackedFloat → Prop
  | .zero _ => True
  | .finite _ _ e _ => e ≤ k
  | _ => False

section Shift

theorem mantissa_shiftRight (em : ExtendedMantissa) (s : ℕ) :
    (em >>> s).mantissa = em.mantissa / 2 ^ s := by
  induction s with
  | zero => exact (Nat.div_one _).symm
  | succ s ih =>
    have hstep : em >>> (s + 1) = (em >>> s).shiftRightOne := rfl
    rw [hstep, ExtendedMantissa.shiftRightOne, ih, pow_succ, Nat.div_div_eq_div_mul]

theorem roundedMantissa_le (em : ExtendedMantissa) : em.roundedMantissa ≤ em.mantissa + 1 := by
  rcases roundedMantissa_eq_or em with heq | ⟨-, hle, -⟩
  · omega
  · exact hle

theorem mantissa_ofMantissaAndAccuracy (m : ℕ) (accuracy : Accuracy) :
    (ExtendedMantissa.ofMantissaAndAccuracy m accuracy).mantissa = m := by
  rcases accuracy with _ | (_ | _ | _) <;> rfl

/-- What is shifted out of a significand is missing in what it is rounded to, up to one bit. -/
theorem log2_le_of_le_succ {m r s : ℕ} (h : r ≤ m / 2 ^ s + 1) : r.log2 ≤ m.log2 + 1 - s := by
  have hm : m < 2 ^ (m.log2 + 1) := Nat.lt_log2_self
  have hquotient : m / 2 ^ s < 2 ^ (m.log2 + 1 - s) := by
    apply Nat.div_lt_of_lt_mul
    rw [← pow_add]
    exact hm.trans_le (Nat.pow_le_pow_right two_pos (by omega))
  have hr : r ≤ 2 ^ (m.log2 + 1 - s) := by omega
  have hlt : r < 2 ^ (m.log2 + 1 - s + 1) :=
    hr.trans_lt (Nat.pow_lt_pow_right one_lt_two (Nat.lt_succ_self _))
  rcases Nat.eq_zero_or_pos r with rfl | hpos
  · simp
  · exact Nat.lt_succ_iff.mp ((Nat.log2_lt hpos.ne').mpr hlt)

theorem log2_shiftLeft_le (m s : ℕ) : (m <<< s).log2 ≤ m.log2 + s := by
  rcases Nat.eq_zero_or_pos m with rfl | hm
  · simp
  · rw [Nat.shiftLeft_eq]
    have hlt : m * 2 ^ s < 2 ^ (m.log2 + 1 + s) := by
      rw [pow_add]
      exact Nat.mul_lt_mul_of_pos_right Nat.lt_log2_self (Nat.two_pow_pos s)
    have := (Nat.log2_lt (Nat.mul_pos hm (Nat.two_pow_pos s)).ne').mpr hlt
    omega

theorem log2_shiftLeft {n : ℕ} (hn : 0 < n) (s : ℕ) : (n <<< s).log2 = n.log2 + s := by
  apply le_antisymm (log2_shiftLeft_le n s)
  rw [Nat.shiftLeft_eq, Nat.le_log2 (Nat.mul_pos hn (Nat.two_pow_pos s)).ne', pow_add]
  exact Nat.mul_le_mul_right _ (Nat.log2_self_le hn.ne')

end Shift

section Rounding
variable {k e : ℤ} {m : ℕ}

/-- A shift brings the exponent up to the one that leaves 53 bits. -/
theorem exponent_shiftToTargetExponent (m : ℕ) (e : ℤ) (accuracy : Accuracy) :
    (shiftToTargetExponent Format.binary64 m e accuracy).2 =
      max e (max (m.log2 + 1 + e - 53) (-1074)) := by
  show e + ((Format.binary64.targetExponent (totalExponent m e) - e).toNat : ℤ) = _
  rw [targetExponent_eq, totalExponent]
  omega

theorem mantissa_shiftToTargetExponent (m : ℕ) (e : ℤ) (accuracy : Accuracy) :
    (shiftToTargetExponent Format.binary64 m e accuracy).1.mantissa =
      m / 2 ^ ((shiftToTargetExponent Format.binary64 m e accuracy).2 - e).toNat := by
  have hexponent : ((shiftToTargetExponent Format.binary64 m e accuracy).2 - e).toNat =
      (Format.binary64.targetExponent (totalExponent m e) - e).toNat := by
    show (e + ((Format.binary64.targetExponent (totalExponent m e) - e).toNat : ℤ) - e).toNat = _
    omega
  rw [hexponent]
  exact (mantissa_shiftRight _ _).trans
    (congrArg (· / _) (mantissa_ofMantissaAndAccuracy m accuracy))

theorem upTo_roundWithAccuracy (hk : -1074 ≤ k) (he : e ≤ k) (hm : (m.log2 : ℤ) + e ≤ k + 51)
    (sign : Sign) (accuracy : Accuracy) :
    UpTo k (roundWithAccuracy Format.binary64 sign m e accuracy) := by
  -- The first shift goes to the exponent of the exact value, the second makes room for a carry.
  have hexponent := exponent_shiftToTargetExponent m e accuracy
  have hmantissa := mantissa_shiftToTargetExponent m e accuracy
  unfold roundWithAccuracy
  generalize shiftToTargetExponent Format.binary64 m e accuracy = shifted at *
  obtain ⟨em, e₁⟩ := shifted
  have hlog : em.roundedMantissa.log2 ≤ m.log2 + 1 - (e₁ - e).toNat :=
    log2_le_of_le_succ ((roundedMantissa_le em).trans_eq (congrArg (· + 1) hmantissa))
  have hcarry := exponent_shiftToTargetExponent em.roundedMantissa e₁ .exact
  dsimp only at hexponent hcarry ⊢
  split
  · trivial
  · show (shiftToTargetExponent Format.binary64 em.roundedMantissa e₁ .exact).2 ≤ k
    omega

theorem upTo_round (hk : -1074 ≤ k) (hm : (m.log2 : ℤ) + e ≤ k + 51) (sign : Sign) :
    UpTo k (UnpackedFloat.round Format.binary64 sign m e) := by
  have htarget : Format.binary64.targetExponent (totalExponent m e) =
      max ((m.log2 : ℤ) + 1 + e - 53) (-1074) := targetExponent_eq _
  have hlog := log2_shiftLeft_le m (e - max ((m.log2 : ℤ) + 1 + e - 53) (-1074)).toNat
  unfold UnpackedFloat.round decreaseExponent
  simp only [htarget]
  apply upTo_roundWithAccuracy hk
  · omega
  · omega

theorem upTo_normalize {n : ℤ} (hk : -1074 ≤ k) (hn : (n.natAbs.log2 : ℤ) + e ≤ k + 51)
    (sign : Sign) : UpTo k (UnpackedFloat.normalize Format.binary64 n e sign) := by
  unfold UnpackedFloat.normalize
  rcases lt_trichotomy n 0 with h | h | h
  · rw [compare_lt_iff_lt.mpr h]
    apply upTo_round hk
    rwa [show (-n).toNat = n.natAbs by omega]
  · rw [compare_eq_iff_eq.mpr h]
    trivial
  · rw [compare_gt_iff_gt.mpr h]
    apply upTo_round hk
    rwa [show n.toNat = n.natAbs by omega]

end Rounding

/-- The parts of a stored number give back a number at its exponent. -/
theorem upTo_unpack_packComponents {k : ℤ} (hk : -1074 ≤ k) (s : Sign) {exponent : BitVec 11}
    (hlt : exponent.toNat < 2047) (hexponent : exponent.toNat ≤ k + 1075) (mantissa : BitVec 52) :
    UpTo k (UnpackedFloat.unpack Format.binary64
      (packComponents Format.binary64 s exponent mantissa)) := by
  have hbias : (Format.binary64.exponentBias : ℤ) = 1023 := by decide
  have hones : ¬ exponent = -1#11 := by
    rintro rfl
    exact absurd hlt (by decide)
  unfold UnpackedFloat.unpack
  simp only [unpackMantissa_packComponents, unpackExponent_packComponents, hbias]
  rw [if_neg hones]
  split
  next hzero =>
    split
    · trivial
    · show (exponent.toNat : ℤ) - (1023 + (52 : ℕ)) + 1 ≤ k
      rw [hzero]
      exact hk
  next =>
    show (exponent.toNat : ℤ) - (1023 + (52 : ℕ)) ≤ k
    omega

/-- Storing a number keeps away from infinity if its exponent does. -/
theorem upTo_unpack_pack {k : ℤ} (hk : -1074 ≤ k) (hk' : k ≤ 971) {u : UnpackedFloat}
    (h : UpTo k u) : UpTo k (Float.ofModel (.pack u)).toModel.unpack := by
  show UpTo k (UnpackedFloat.unpack Format.binary64 (UnpackedFloat.pack Format.binary64 u))
  have hbias : (Format.binary64.exponentBias : ℤ) = 1023 := by decide
  cases u with
  | infinity s => exact h.elim
  | notANumber => exact h.elim
  | zero s => cases s <;> trivial
  | finite s m e hm =>
    have he : e ≤ k := h
    unfold UnpackedFloat.pack
    simp only [hbias]
    have hbiased : (e + 1023 + (52 : ℕ)).toNat ≤ k + 1075 := by omega
    generalize (e + 1023 + (52 : ℕ)).toNat = biased at hbiased ⊢
    rw [if_neg (show ¬ 2 ^ 11 ≤ biased + 1 by omega)]
    split
    · have hvalue : (BitVec.ofNat 11 biased).toNat = biased := Nat.mod_eq_of_lt (by omega)
      apply upTo_unpack_packComponents hk
      · omega
      · omega
    · apply upTo_unpack_packComponents hk
      · decide
      · show (0 : ℤ) ≤ k + 1075
        omega

/-- What is read from a float has at most 53 bits, at an exponent that a float can store. -/
theorem bounds_of_unpack {x : Float} {s : Sign} {m : ℕ} {e : ℤ} {h : 0 < m}
    (hx : x.toModel.unpack = .finite s m e h) : m.log2 < 53 ∧ e ≤ 971 := by
  have hbias : (Format.binary64.exponentBias : ℤ) = 1023 := by decide
  have hunpack : x.toModel.unpack =
      UnpackedFloat.unpack Format.binary64 x.toModel.toBits.toBitVec := rfl
  rw [Nat.log2_lt h.ne']
  rw [hx] at hunpack
  unfold UnpackedFloat.unpack at hunpack
  simp only [hbias] at hunpack
  split at hunpack
  · split at hunpack <;> cases hunpack
  next hones =>
    split at hunpack
    next hzero =>
      split at hunpack
      · cases hunpack
      · obtain ⟨-, rfl, rfl⟩ := UnpackedFloat.finite.inj hunpack
        rw [hzero]
        exact ⟨(BitVec.isLt _).trans (by decide), by decide⟩
    next =>
      obtain ⟨-, rfl, rfl⟩ := UnpackedFloat.finite.inj hunpack
      refine ⟨BitVec.isLt _, ?_⟩
      have hlt := (@unpackExponent Format.binary64 x.toModel.toBits.toBitVec).isLt
      have hne : (@unpackExponent Format.binary64 x.toModel.toBits.toBitVec).toNat ≠ 2047 :=
        fun h => hones (BitVec.eq_of_toNat_eq h)
      have hlt : (@unpackExponent Format.binary64 x.toModel.toBits.toBitVec).toNat < 2048 := hlt
      show ((@unpackExponent Format.binary64 x.toModel.toBits.toBitVec).toNat : ℤ) -
        (1023 + (52 : ℕ)) ≤ 971
      omega

section Operations
variable {x y : Float} {j k : ℤ}

theorem UpTo.zero_or_finite (h : UpTo k x.toModel.unpack) :
    (∃ s, x.toModel.unpack = .zero s) ∨
      ∃ s m e hm, x.toModel.unpack = .finite s m e hm ∧ m.log2 < 53 ∧ e ≤ k := by
  cases hx : x.toModel.unpack with
  | zero s => exact Or.inl ⟨s, rfl⟩
  | finite s m e hm =>
    rw [hx] at h
    exact Or.inr ⟨s, m, e, hm, rfl, (bounds_of_unpack hx).1, h⟩
  | _ =>
    rw [hx] at h
    exact h.elim

theorem natAbs_apply (s : Sign) (n : ℕ) : (s.apply n).natAbs = n := by
  cases s
  · exact Int.natAbs_neg n
  · rfl

theorem lt_two_pow_of_log2_lt {n b : ℕ} (h : n.log2 < b) : n < 2 ^ b :=
  Nat.lt_log2_self.trans_le (Nat.pow_le_pow_right two_pos h)

/-- Two significands brought to one exponent differ by no more than one bit above the longer. -/
theorem log2_natAbs_sub_le (s t : Sign) {n k b : ℕ} (hn : n.log2 < b) (hk : k.log2 < b) :
    (s.apply n - t.apply k).natAbs.log2 ≤ b := by
  have habs := Int.natAbs_sub_le (s.apply n) (t.apply k)
  rw [natAbs_apply, natAbs_apply] at habs
  have hsum : (s.apply n - t.apply k).natAbs < 2 ^ (b + 1) := by
    rw [pow_succ]
    linarith [lt_two_pow_of_log2_lt hn, lt_two_pow_of_log2_lt hk]
  rcases Nat.eq_zero_or_pos (s.apply n - t.apply k).natAbs with h | h
  · simp [h]
  · exact Nat.lt_succ_iff.mp ((Nat.log2_lt h.ne').mpr hsum)

/-- A difference is at most two binades above its parts. -/
theorem upTo_sub (hj : -1074 ≤ j) (hk : j + 2 ≤ 971) (hx : UpTo j x.toModel.unpack)
    (hy : UpTo j y.toModel.unpack) : UpTo (j + 2) (x - y).toModel.unpack := by
  apply upTo_unpack_pack (by omega) hk
  show UpTo (j + 2) (UnpackedFloat.sub Format.binary64 x.toModel.unpack y.toModel.unpack)
  rcases hx.zero_or_finite with ⟨s, hux⟩ | ⟨s, m, e, hm, hux, hlog, he⟩ <;>
    rcases hy.zero_or_finite with ⟨s', huy⟩ | ⟨s', m', e', hm', huy, hlog', he'⟩ <;>
    rw [hux, huy]
  case inl.inl => cases s <;> cases s' <;> trivial
  case inl.inr => exact he'.trans (by omega)
  case inr.inl => exact he.trans (by omega)
  case inr.inr =>
    have hshift := log2_shiftLeft_le m (e - min e e').toNat
    have hshift' := log2_shiftLeft_le m' (e' - min e e').toNat
    have hdifference := log2_natAbs_sub_le s s' (n := m <<< (e - min e e').toNat)
      (k := m' <<< (e' - min e e').toNat) (b := (53 + j - min e e').toNat) (by omega) (by omega)
    apply upTo_normalize (by omega)
    show ((_ : ℕ) : ℤ) + min e e' ≤ _
    omega

/-- A product is at most as many binades above one factor as the other reaches. -/
theorem upTo_mul (hk : -1074 ≤ k) (hk' : k ≤ 971) {i : ℤ} (hij : i + j + 54 ≤ k)
    (hx : UpTo i x.toModel.unpack) (hy : UpTo j y.toModel.unpack) :
    UpTo k (x * y).toModel.unpack := by
  apply upTo_unpack_pack hk hk'
  show UpTo k (UnpackedFloat.mul Format.binary64 x.toModel.unpack y.toModel.unpack)
  rcases hx.zero_or_finite with ⟨s, hux⟩ | ⟨s, m, e, hm, hux, hlog, he⟩ <;>
    rcases hy.zero_or_finite with ⟨s', huy⟩ | ⟨s', m', e', hm', huy, hlog', he'⟩ <;>
    rw [hux, huy]
  case inr.inr =>
    have hproduct : m * m' < 2 ^ 106 := by
      have := Nat.mul_lt_mul'' (lt_two_pow_of_log2_lt hlog) (lt_two_pow_of_log2_lt hlog')
      exact this.trans_eq (pow_add 2 53 53).symm
    have hlogs := (Nat.log2_lt (Nat.mul_pos hm hm').ne').mpr hproduct
    apply upTo_roundWithAccuracy hk
    · omega
    · omega
  all_goals trivial

theorem log2_div_le (n d : ℕ) : (n / d).log2 ≤ n.log2 := by
  rcases Nat.eq_zero_or_pos (n / d) with h | h
  · simp [h]
  · exact Nat.lt_succ_iff.mp
      ((Nat.log2_lt h.ne').mpr ((Nat.div_le_self n d).trans_lt Nat.lt_log2_self))

/-- Dividing by a number whose last place is worth `2 ^ -d` or more takes nothing up by more than
`d` binades and rounding. -/
theorem upTo_div {d : ℤ} (hd : 0 ≤ d) (hj : -1074 ≤ j) (hk : j + d + 1 ≤ 971)
    (hx : UpTo j x.toModel.unpack) {s' : Sign} {m' : ℕ} {e' : ℤ} {hm' : 0 < m'}
    (huy : y.toModel.unpack = .finite s' m' e' hm') (he' : -d ≤ e') :
    UpTo (j + d + 1) (x / y).toModel.unpack := by
  apply upTo_unpack_pack (by omega) hk
  show UpTo (j + d + 1) (UnpackedFloat.div Format.binary64 x.toModel.unpack y.toModel.unpack)
  rcases hx.zero_or_finite with ⟨s, hux⟩ | ⟨s, m, e, hm, hux, hlog, he⟩ <;> rw [hux, huy]
  · trivial
  · unfold UnpackedFloat.div divCore
    dsimp only
    generalize htarget : min (e - e') (Format.binary64.targetExponent
      (totalExponent m e - totalExponent m' e')) = target
    have hquotient := log2_div_le (m <<< (e - e' - target).toNat) m'
    have hshift := log2_shiftLeft_le m (e - e' - target).toNat
    apply upTo_roundWithAccuracy (by omega)
    · omega
    · omega

end Operations

section Coefficients

theorem upTo_toFloat_of_lt {w : UInt64} {b : ℕ} (hpos : 0 < b) (hb : b ≤ 64) (h : w.toNat < 2 ^ b) :
    UpTo (b - 52) w.toFloat.toModel.unpack := by
  apply upTo_unpack_pack (by omega) (by omega)
  apply upTo_normalize (by omega)
  rw [Int.natAbs_natCast]
  rcases Nat.eq_zero_or_pos w.toNat with hzero | hw
  · rw [hzero, Nat.log2_zero]
    omega
  · have hlog := (Nat.log2_lt hw.ne').mpr h
    omega

theorem upTo_toFloat (w : UInt64) : UpTo 12 w.toFloat.toModel.unpack :=
  upTo_toFloat_of_lt (by decide) le_rfl w.toNat_lt

theorem ofNat_eq {n : ℕ} (hn : n < 2 ^ 53) : Float.ofNat n = (UInt64.ofNat n).toFloat * 1.0 := by
  show Float.ofScientific n false 0 = _
  unfold Float.ofScientific
  rw [dif_pos ⟨hn, by decide⟩]
  rfl

theorem unpack_one : (1.0 : Float).toModel.unpack = .finite .positive (2 ^ 52) (-52) (by decide) :=
  rfl

theorem upTo_ofNat {n : ℕ} (hn : n < 2 ^ 53) : UpTo 3 (Float.ofNat n).toModel.unpack := by
  have hword : UpTo 1 (UInt64.ofNat n).toFloat.toModel.unpack := by
    apply upTo_toFloat_of_lt (b := 53) (by decide) (by decide)
    rwa [UInt64.toNat_ofNat_of_lt' (hn.trans (by decide))]
  rw [ofNat_eq hn]
  apply upTo_mul (by decide) (by decide) (i := 1) (j := -52) (by decide) hword
  rw [unpack_one]
  exact le_refl (-52 : ℤ)

theorem unpack_places : (Float.ofNat (1 <<< 52)).toModel.unpack =
    .finite .positive (2 ^ 52) 0 (by decide) := rfl

theorem unpack_half : (Scalar.half : Float).toModel.unpack =
    .finite .positive (2 ^ 52) (-53) (by decide) := rfl

theorem places_lt (w : UInt64) : (w >>> 12).toNat < 2 ^ 52 := by
  have hword := w.toNat_lt
  rw [UInt64.toNat_shiftRight, Nat.shiftRight_eq_div_pow]
  show w.toNat / 2 ^ 12 < 2 ^ 52
  omega

/-- Coefficients of random problems. -/
theorem upTo_coefficient (g : Random.Generator) :
    UpTo 6 (Random.Draw.coefficient (α := Float) g).1.toModel.unpack := by
  have hplaces := (places_lt (Random.Draw.word g).1).trans (by decide : 2 ^ 52 < 2 ^ 53)
  show UpTo (4 + 2) (Float.ofNat ((Random.Draw.word g).1 >>> 12).toNat / Float.ofNat (1 <<< 52) -
    Scalar.half).toModel.unpack
  apply upTo_sub (by decide) (by decide)
  · exact upTo_div (j := 3) le_rfl (by decide) (by decide) (upTo_ofNat hplaces) unpack_places le_rfl
  · rw [unpack_half]
    exact (by decide : (-53 : ℤ) ≤ 4)

end Coefficients

section Null
open Scalar
variable {x y : Float}

theorem le_iff_compare :
    x ≤ y ↔ (x.toModel.unpack.compare y.toModel.unpack).any Ordering.isLE = true := by
  show decide (x.toModel ≤ y.toModel) = true ↔ _
  rw [decide_eq_true_iff]
  rfl

theorem isNull_iff : IsNull x ↔ ∃ s, x.toModel.unpack = .zero s := by
  have hzero : (zero : Float).toModel.unpack = .zero .positive := rfl
  rw [IsNull, le_iff_compare, le_iff_compare, hzero]
  cases x.toModel.unpack with
  | zero s => simp [UnpackedFloat.compare]
  | infinity s => cases s <;> simp [UnpackedFloat.compare]
  | notANumber => simp [UnpackedFloat.compare]
  | finite s m e h => cases s <;> simp [UnpackedFloat.compare]

theorem unpack_pack_zero (s : Sign) :
    (Float.ofModel (.pack (.zero s))).toModel.unpack = .zero s := by
  cases s <;> rfl

/-- Numbers differ from themselves by nothing; what infinities differ by is no number. -/
theorem unpack_sub_self (x : Float) :
    (x - x).toModel.unpack = .notANumber ∧
      (x.toModel.unpack = .notANumber ∨ ∃ s, x.toModel.unpack = .infinity s) ∨
    (x - x).toModel.unpack = .zero .positive ∧ ((∃ s, x.toModel.unpack = .zero s) ∨
      ∃ s m e h, x.toModel.unpack = .finite s m e h) := by
  have hsub : x - x = .ofModel (.pack
    (UnpackedFloat.sub Format.binary64 x.toModel.unpack x.toModel.unpack)) := rfl
  rw [hsub]
  cases x.toModel.unpack with
  | zero s => exact Or.inr ⟨by cases s <;> rfl, Or.inl ⟨s, rfl⟩⟩
  | infinity s => exact Or.inl ⟨by cases s <;> rfl, Or.inr ⟨s, rfl⟩⟩
  | notANumber => exact Or.inl ⟨rfl, Or.inl rfl⟩
  | finite s m e h =>
    have hself : UnpackedFloat.sub Format.binary64 (.finite s m e h) (.finite s m e h) =
        .zero .positive := by
      unfold UnpackedFloat.sub
      simp only [sub_self]
      rfl
    exact Or.inr ⟨hself ▸ unpack_pack_zero .positive, Or.inr ⟨s, m, e, h, rfl⟩⟩

theorem isFinite_iff : IsFinite x ↔ (∃ s, x.toModel.unpack = .zero s) ∨
    ∃ s m e h, x.toModel.unpack = .finite s m e h := by
  rw [IsFinite, isNull_iff]
  rcases unpack_sub_self x with ⟨hself, hx | ⟨s, hx⟩⟩ | ⟨hself, hx⟩
  · simp [hself, hx]
  · simp [hself, hx]
  · simp only [hself, hx, iff_true]
    exact ⟨_, rfl⟩

theorem isFinite_of_upTo {k : ℤ} (h : UpTo k x.toModel.unpack) : IsFinite x := by
  apply isFinite_iff.mpr
  rcases h.zero_or_finite with h | ⟨s, m, e, hm, h, -, -⟩
  · exact Or.inl h
  · exact Or.inr ⟨s, m, e, hm, h⟩

theorem neg_eq (x : Float) : -x = .ofModel (.pack x.toModel.unpack.neg) := rfl

end Null

instance : LawfulEnergies Float where
  finite_coefficient g := isFinite_of_upTo (upTo_coefficient g)
  finite_neg x h := by
    have hx : UpTo 971 x.toModel.unpack.neg := by
      rcases isFinite_iff.mp h with ⟨s, hs⟩ | ⟨s, m, e, hm, hs⟩ <;> rw [hs]
      · trivial
      · exact (bounds_of_unpack hs).2
    exact isFinite_of_upTo (upTo_unpack_pack (by decide) le_rfl hx)
  finite_of_null x h := isFinite_iff.mpr (Or.inl (isNull_iff.mp h))
  null_zero := isNull_iff.mpr ⟨.positive, rfl⟩
  null_neutral := isNull_iff.mpr ⟨.negative, rfl⟩
  null_add x y hx hy := by
    obtain ⟨s, hs⟩ := isNull_iff.mp hx
    obtain ⟨s', hs'⟩ := isNull_iff.mp hy
    have hadd : x + y = .ofModel (.pack
      (UnpackedFloat.add Format.binary64 x.toModel.unpack y.toModel.unpack)) := rfl
    apply isNull_iff.mpr
    rw [hadd, hs, hs']
    cases s <;> cases s' <;> exact ⟨_, rfl⟩
  null_mul x y hx hy := by
    obtain ⟨s', hs'⟩ := isNull_iff.mp hy
    apply isNull_iff.mpr
    rw [mul_eq, hs']
    rcases isFinite_iff.mp hx with ⟨s, hs⟩ | ⟨s, m, e, h, hs⟩ <;> rw [hs]
    · exact ⟨s * s', unpack_pack_zero _⟩
    · exact ⟨s * s', unpack_pack_zero _⟩
  isBounded_of_null x h := by
    obtain ⟨s, hs⟩ := isNull_iff.mp h
    show decide (x < 1.0 / 0.0) = true
    rw [decide_eq_true_iff, lt_iff_compare, hs]
    cases s <;> rfl
  magnitude_le_of_null x h := by
    obtain ⟨s, hs⟩ := isNull_iff.mp h
    have hneg : ¬ x < Scalar.zero := by
      rw [lt_iff_compare, hs]
      cases s <;> decide
    rw [Scalar.magnitude, if_neg hneg, le_iff_compare, hs]
    cases s <;> rfl
  not_pos_sub_self d x := by
    rw [lt_iff_compare]
    rcases unpack_sub_self x with ⟨hself, -⟩ | ⟨hself, -⟩ <;> cases d <;>
      simp only [Direction.sign, neg_eq, hself] <;> decide
  le_of_pos x h := by
    rw [lt_iff_compare] at h
    rw [le_iff_compare, h]
    rfl

section Infinite
open Scalar
variable {x y : Float}

/-- What is not finite is an infinity or no number. -/
theorem not_isFinite_iff : ¬ IsFinite x ↔
    x.toModel.unpack = .notANumber ∨ ∃ s, x.toModel.unpack = .infinity s := by
  rw [isFinite_iff]
  cases x.toModel.unpack with
  | finite s m e h => simp [h.ne']
  | _ => simp

theorem not_isFinite_pack {u : UnpackedFloat} (h : u = .notANumber ∨ ∃ s, u = .infinity s) :
    ¬ IsFinite (Float.ofModel (.pack u)) := by
  apply not_isFinite_iff.mpr
  rcases h with rfl | ⟨s, rfl⟩
  · exact Or.inl rfl
  · exact Or.inr ⟨s, by cases s <;> rfl⟩

theorem add_eq (x y : Float) : x + y =
    .ofModel (.pack (UnpackedFloat.add Format.binary64 x.toModel.unpack y.toModel.unpack)) := rfl

/-- An infinity stays in a sum, unless the sum is no number. -/
theorem not_isFinite_add (h : ¬ IsFinite x ∨ ¬ IsFinite y) : ¬ IsFinite (x + y) := by
  rw [not_isFinite_iff, not_isFinite_iff] at h
  rw [add_eq]
  apply not_isFinite_pack
  rcases h with (hx | ⟨s, hx⟩) | hy | ⟨s, hy⟩
  · rw [hx]
    exact Or.inl rfl
  · rw [hx]
    cases y.toModel.unpack with
    | infinity s' => cases s <;> cases s' <;> simp [UnpackedFloat.add]
    | _ => simp [UnpackedFloat.add]
  · rw [hy]
    cases x.toModel.unpack <;> exact Or.inl rfl
  · rw [hy]
    cases x.toModel.unpack with
    | infinity s' => cases s <;> cases s' <;> simp [UnpackedFloat.add]
    | _ => simp [UnpackedFloat.add]

theorem not_isFinite_mul (h : ¬ IsFinite x ∨ ¬ IsFinite y) : ¬ IsFinite (x * y) := by
  rw [not_isFinite_iff, not_isFinite_iff] at h
  rw [mul_eq]
  apply not_isFinite_pack
  rcases h with (hx | ⟨s, hx⟩) | hy | ⟨s, hy⟩
  · rw [hx]
    exact Or.inl rfl
  · rw [hx]
    cases y.toModel.unpack <;> simp [UnpackedFloat.mul]
  · rw [hy]
    cases x.toModel.unpack <;> exact Or.inl rfl
  · rw [hy]
    cases x.toModel.unpack <;> simp [UnpackedFloat.mul]

end Infinite

instance : StaysInfinite Float where
  finite_of_add x y h := by
    by_contra hparts
    exact not_isFinite_add (not_and_or.mp hparts) h
  finite_of_mul x y h := by
    by_contra hparts
    exact not_isFinite_mul (not_and_or.mp hparts) h

end Qubo.Float64

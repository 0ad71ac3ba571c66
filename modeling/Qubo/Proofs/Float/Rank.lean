import Mathlib
import Qubo.Scalar

/-! Machine floats that are not negative, ordered as their bit patterns: each one but infinity is a
whole significand below `2 ^ 53` times a power of two, and the pattern counts the floats below. -/
namespace Qubo.Float64
open Float.Model Float.Model.UnpackedFloat

/-- The bit pattern as a number. -/
def rank (x : Float) : ℕ := x.toBits.toNat

/-- The pattern of infinity. -/
def infinityRank : ℕ := 2047 * 2 ^ 52

/-- Zero, a positive number or infinity, but for minus zero. -/
def IsNonneg (x : Float) : Prop := rank x ≤ infinityRank

theorem rank_injective {x y : Float} (h : rank x = rank y) : x = y :=
  Float.toBits_inj.mp (UInt64.toNat_inj.mp h)

/-- Significand and exponent as a float stores them: all 53 bits are used, unless the exponent is
the least one. -/
structure Canonical (m : ℕ) (e : ℤ) : Prop where
  pos : 0 < m
  lt : m < 2 ^ 53
  le_exponent : -1074 ≤ e
  exponent_le : e ≤ 971
  full : 2 ^ 52 ≤ m ∨ e = -1074

/-- The pattern of `m * 2 ^ e`. -/
def finiteRank (m : ℕ) (e : ℤ) : ℕ := (e + 1074).toNat * 2 ^ 52 + m

section Unpack
variable (x : Float)

theorem toNat_unpackMantissa :
    (@unpackMantissa Format.binary64 x.toModel.toBits.toBitVec).toNat =
      rank x % 2 ^ 52 := by
  simp only [unpackMantissa, BitVec.toNat_cast, BitVec.extractLsb_toNat]
  rfl

theorem toNat_unpackExponent :
    (@unpackExponent Format.binary64 x.toModel.toBits.toBitVec).toNat =
      rank x / 2 ^ 52 % 2 ^ 11 := by
  simp only [unpackExponent, BitVec.toNat_cast, BitVec.extractLsb_toNat]
  rw [Nat.shiftRight_eq_div_pow]
  rfl

theorem toNat_unpackSign :
    (@unpackSign Format.binary64 x.toModel.toBits.toBitVec).toNat =
      rank x / 2 ^ 63 % 2 := by
  simp only [unpackSign, BitVec.toNat_cast, BitVec.extractLsb_toNat]
  rw [Nat.shiftRight_eq_div_pow]
  rfl

theorem unpackMantissa_eq_iff (v : BitVec 52) :
    @unpackMantissa Format.binary64 x.toModel.toBits.toBitVec = v ↔
      rank x % 2 ^ 52 = v.toNat := by
  rw [← toNat_unpackMantissa]
  exact BitVec.toNat_inj.symm

theorem unpackExponent_eq_iff (v : BitVec 11) :
    @unpackExponent Format.binary64 x.toModel.toBits.toBitVec = v ↔
      rank x / 2 ^ 52 % 2 ^ 11 = v.toNat := by
  rw [← toNat_unpackExponent]
  exact BitVec.toNat_inj.symm

theorem unpackSign_eq_iff (v : BitVec 1) :
    @unpackSign Format.binary64 x.toModel.toBits.toBitVec = v ↔
      rank x / 2 ^ 63 % 2 = v.toNat := by
  rw [← toNat_unpackSign]
  exact BitVec.toNat_inj.symm

theorem rank_lt : rank x < 2 ^ 64 := x.toModel.toBits.toBitVec.isLt

variable {x}

theorem sign_of_rank_lt (h : rank x < 2 ^ 63) :
    Sign.ofBitVec (@unpackSign Format.binary64 x.toModel.toBits.toBitVec) =
      .positive := by
  rw [(unpackSign_eq_iff x 0#1).mpr (by rw [Nat.div_eq_of_lt h]; rfl)]
  rfl

theorem sign_of_le_rank (h : 2 ^ 63 ≤ rank x) :
    Sign.ofBitVec (@unpackSign Format.binary64 x.toModel.toBits.toBitVec) =
      .negative := by
  have hlt := rank_lt x
  rw [(unpackSign_eq_iff x 1#1).mpr (show rank x / 2 ^ 63 % 2 = 1 by omega)]
  rfl

theorem finite_congr {s : Sign} {m m' : ℕ} {e e' : ℤ} {h : 0 < m} {h' : 0 < m'}
    (hm : m = m') (he : e = e') : finite s m e h = finite s m' e' h' := by
  subst hm he
  rfl

/-- What a float is that is not negative. -/
theorem unpack_of_isNonneg (hx : IsNonneg x) :
    (rank x = 0 ∧ x.toModel.unpack = .zero .positive) ∨
    (rank x = infinityRank ∧ x.toModel.unpack = .infinity .positive) ∨
    ∃ m e, ∃ h : Canonical m e, rank x = finiteRank m e ∧
      x.toModel.unpack = .finite .positive m e h.pos := by
  have hle : rank x ≤ 2047 * 2 ^ 52 := hx
  have hbias : ((Format.binary64.exponentBias : ℤ) + (52 : ℕ)) = 1075 := by decide
  have hunpack : x.toModel.unpack =
      UnpackedFloat.unpack Format.binary64 x.toModel.toBits.toBitVec := rfl
  unfold UnpackedFloat.unpack at hunpack
  simp only [sign_of_rank_lt (x := x) (by omega)] at hunpack
  split at hunpack
  next hones =>
    have hones : rank x / 2 ^ 52 % 2 ^ 11 = 2047 := (unpackExponent_eq_iff x _).mp hones
    have hrank : rank x = 2047 * 2 ^ 52 := by omega
    have hzero := (unpackMantissa_eq_iff x 0#52).mpr (by rw [hrank]; rfl)
    exact Or.inr (Or.inl ⟨hrank, hunpack.trans (if_pos hzero)⟩)
  next hones =>
    have hones : rank x / 2 ^ 52 % 2 ^ 11 ≠ 2047 :=
      mt (unpackExponent_eq_iff x (-1#11)).mpr hones
    split at hunpack
    next hsubnormal =>
      have hexponent : rank x / 2 ^ 52 % 2 ^ 11 = 0 := (unpackExponent_eq_iff x _).mp hsubnormal
      have hmantissa := toNat_unpackMantissa x
      split at hunpack
      next hzero =>
        have hzero : rank x % 2 ^ 52 = 0 := (unpackMantissa_eq_iff x _).mp hzero
        exact Or.inl ⟨by omega, hunpack⟩
      next hzero =>
        have hzero : rank x % 2 ^ 52 ≠ 0 := mt (unpackMantissa_eq_iff x 0#52).mpr hzero
        have hcanonical : Canonical (rank x) (-1074) :=
          ⟨by omega, by omega, le_rfl, by omega, Or.inr rfl⟩
        refine Or.inr (Or.inr ⟨rank x, -1074, hcanonical, by simp [finiteRank], ?_⟩)
        refine hunpack.trans (finite_congr ?_ ?_)
        · omega
        · rw [hbias, hsubnormal]
          rfl
    next hnormal =>
      have hnormal : rank x / 2 ^ 52 % 2 ^ 11 ≠ 0 :=
        mt (unpackExponent_eq_iff x 0#11).mpr hnormal
      have hcanonical : Canonical (2 ^ 52 + rank x % 2 ^ 52) ((rank x / 2 ^ 52 : ℕ) - 1075) :=
        ⟨by omega, by omega, by omega, by omega, Or.inl (by omega)⟩
      refine Or.inr (Or.inr ⟨_, _, hcanonical, ?_, ?_⟩)
      · unfold finiteRank
        omega
      refine hunpack.trans (finite_congr ?_ ?_)
      · rw [BitVec.toNat_append, toNat_unpackMantissa]
        show 1 <<< 52 ||| _ = _
        rw [← Nat.shiftLeft_add_eq_or_of_lt (Nat.mod_lt _ (by decide)), Nat.one_shiftLeft]
      · rw [hbias, toNat_unpackExponent]
        omega

/-- What a float is that is negative or not a number. -/
theorem unpack_of_not_isNonneg (hx : ¬ IsNonneg x) :
    x.toModel.unpack = .notANumber ∨ x.toModel.unpack = .infinity .negative ∨
    x.toModel.unpack = .zero .negative ∨
    ∃ m e h, x.toModel.unpack = .finite .negative m e h := by
  have hlt : 2047 * 2 ^ 52 < rank x := not_le.mp hx
  have hunpack : x.toModel.unpack =
      UnpackedFloat.unpack Format.binary64 x.toModel.toBits.toBitVec := rfl
  unfold UnpackedFloat.unpack at hunpack
  by_cases hsmall : rank x < 2 ^ 63
  · have hones := (unpackExponent_eq_iff x (-1#11)).mpr
      (show rank x / 2 ^ 52 % 2 ^ 11 = 2047 by omega)
    have hzero := mt (unpackMantissa_eq_iff x 0#52).mp (show ¬ rank x % 2 ^ 52 = 0 by omega)
    exact Or.inl (hunpack.trans ((if_pos hones).trans (if_neg hzero)))
  · simp only [sign_of_le_rank (not_lt.mp hsmall)] at hunpack
    split at hunpack
    · split at hunpack
      · exact Or.inr (Or.inl hunpack)
      · exact Or.inl hunpack
    · split at hunpack
      · split at hunpack
        · exact Or.inr (Or.inr (Or.inl hunpack))
        · exact Or.inr (Or.inr (Or.inr ⟨_, _, _, hunpack⟩))
      · exact Or.inr (Or.inr (Or.inr ⟨_, _, _, hunpack⟩))

end Unpack

theorem rank_pack_zero : rank (.ofModel (.pack (.zero .positive))) = 0 := by decide

theorem rank_pack_infinity : rank (.ofModel (.pack (.infinity .positive))) = infinityRank := by
  decide

theorem toNat_packComponents (exponent : BitVec 11) (mantissa : BitVec 52) :
    (packComponents Format.binary64 .positive exponent mantissa).toNat =
      exponent.toNat * 2 ^ 52 + mantissa.toNat := by
  unfold packComponents
  rw [BitVec.toNat_append, BitVec.toNat_append]
  show (0 <<< 11 ||| exponent.toNat) <<< 52 ||| mantissa.toNat = _
  rw [← Nat.shiftLeft_add_eq_or_of_lt mantissa.isLt, Nat.zero_shiftLeft, Nat.zero_or,
    Nat.shiftLeft_eq]

theorem rank_pack {m : ℕ} {e : ℤ} (h : Canonical m e) :
    rank (.ofModel (.pack (.finite .positive m e h.pos))) = finiteRank m e := by
  obtain ⟨hpos, hlt, hle, hge, hfull⟩ := h
  have hbias : (Format.binary64.exponentBias : ℤ) = 1023 := by decide
  show (UnpackedFloat.pack Format.binary64 (.finite .positive m e hpos)).toNat = _
  unfold UnpackedFloat.pack
  simp only [hbias]
  have hbiased : ((e + 1023 + (52 : ℕ)).toNat : ℤ) = e + 1075 := by omega
  have hlog : m.log2 + 1 = Format.binary64.mantissaBits ↔ 2 ^ 52 ≤ m := by
    show m.log2 + 1 = 53 ↔ _
    rw [← Nat.le_log2 hpos.ne']
    have := (Nat.log2_lt hpos.ne').mpr hlt
    omega
  rw [if_neg (show ¬ 2 ^ 11 ≤ _ + 1 by omega)]
  unfold finiteRank
  split
  next hnormal =>
    have hnormal := hlog.mp hnormal
    have hexponent : (BitVec.ofNat 11 (e + 1023 + (52 : ℕ)).toNat).toNat =
        (e + 1023 + (52 : ℕ)).toNat := Nat.mod_eq_of_lt (by omega)
    have hmantissa : (BitVec.ofNat 52 m).toNat = m - 2 ^ 52 := by
      show m % 2 ^ 52 = m - 2 ^ 52
      omega
    rw [toNat_packComponents, hexponent, hmantissa]
    omega
  next hsubnormal =>
    have hsubnormal := fun h => hsubnormal (hlog.mpr h)
    obtain rfl : e = -1074 := hfull.resolve_left hsubnormal
    have hmantissa : (BitVec.ofNat 52 m).toNat = m := Nat.mod_eq_of_lt (not_le.mp hsubnormal)
    rw [toNat_packComponents, hmantissa]
    rfl

theorem lt_iff_compare {x y : Float} :
    x < y ↔ x.toModel.unpack.compare y.toModel.unpack = some .lt := by
  show (decide ((x.toModel.unpack.compare y.toModel.unpack == some .lt) = true)) = true ↔ _
  simp

theorem finiteRank_lt_iff {m m' : ℕ} {e e' : ℤ} (h : Canonical m e) (h' : Canonical m' e') :
    finiteRank m e < finiteRank m' e' ↔ e < e' ∨ e = e' ∧ m < m' := by
  obtain ⟨-, hlt, hle, -, hfull⟩ := h
  obtain ⟨-, hlt', hle', -, hfull'⟩ := h'
  unfold finiteRank
  omega

theorem compare_finite {m m' : ℕ} {e e' : ℤ} (h : 0 < m) (h' : 0 < m') :
    (finite .positive m e h).compare (finite .positive m' e' h') = some .lt ↔
      e < e' ∨ e = e' ∧ m < m' := by
  show some ((compare e e').then (compare m m')) = some .lt ↔ _
  rw [Option.some_inj, Ordering.then_eq_lt, compare_lt_iff_lt, compare_eq_iff_eq, compare_lt_iff_lt]

theorem finiteRank_pos {m : ℕ} {e : ℤ} (h : Canonical m e) : 0 < finiteRank m e :=
  Nat.add_pos_right _ h.pos

theorem finiteRank_lt {m : ℕ} {e : ℤ} (h : Canonical m e) : finiteRank m e < infinityRank := by
  obtain ⟨-, hlt, -, hge, -⟩ := h
  unfold finiteRank infinityRank
  omega

/-- Floats that are not negative compare like their patterns. -/
theorem lt_iff_rank_lt {x y : Float} (hx : IsNonneg x) (hy : IsNonneg y) :
    x < y ↔ rank x < rank y := by
  rw [lt_iff_compare]
  rcases unpack_of_isNonneg hx with ⟨hr, hu⟩ | ⟨hr, hu⟩ | ⟨m, e, h, hr, hu⟩ <;>
    rcases unpack_of_isNonneg hy with ⟨hr', hu'⟩ | ⟨hr', hu'⟩ | ⟨m', e', h', hr', hu'⟩ <;>
    rw [hr, hr', hu, hu']
  case inr.inr.inr.inr => rw [compare_finite, finiteRank_lt_iff h h']
  case inl.inr.inr => simpa [UnpackedFloat.compare] using finiteRank_pos h'
  case inr.inl.inr.inr => simpa [UnpackedFloat.compare] using (finiteRank_lt h').le
  case inr.inr.inl => simp [UnpackedFloat.compare]
  case inr.inr.inr.inl => simpa [UnpackedFloat.compare] using finiteRank_lt h
  all_goals decide

theorem isNonneg_of_lt {x y : Float} (hx : IsNonneg x) (h : x < y) : IsNonneg y := by
  by_contra hy
  rw [lt_iff_compare] at h
  rcases unpack_of_isNonneg hx with ⟨-, hu⟩ | ⟨-, hu⟩ | ⟨m, e, hm, -, hu⟩ <;>
    rcases unpack_of_not_isNonneg hy with hu' | hu' | hu' | ⟨m', e', hm', hu'⟩ <;>
    simp [hu, hu', UnpackedFloat.compare] at h

end Qubo.Float64

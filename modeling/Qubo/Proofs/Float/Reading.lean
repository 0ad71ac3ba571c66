import Mathlib.Tactic
import Qubo.Json.Numeral
import Qubo.Proofs.Float.Finite

/-! The floats that numerals are read as: every one is finite, and reading fails only beyond the
range of floats. -/
namespace Qubo.Float64
open Float.Model Float.Model.UnpackedFloat Scalar

/-- No minus sign. -/
def IsUnsigned : UnpackedFloat → Prop
  | .zero s => s = .positive
  | .finite s _ _ _ => s = .positive
  | .infinity s => s = .positive
  | .notANumber => False

section Unsigned
variable {x y : Float}

theorem isNonneg_pack {u : UnpackedFloat} (h : IsUnsigned u) : IsNonneg (.ofModel (.pack u)) := by
  cases u with
  | notANumber => exact h.elim
  | infinity s => cases h; exact rank_pack_infinity.le
  | zero s => cases h; exact rank_pack_zero.le.trans (Nat.zero_le _)
  | finite s m e hm =>
    cases h
    show (UnpackedFloat.pack Format.binary64 (.finite .positive m e hm)).toNat ≤ _
    unfold UnpackedFloat.pack
    dsimp only
    generalize (e + _ + _).toNat = biased
    split_ifs with hhuge hnormal
    · exact rank_pack_infinity.le
    · have hbiased : biased + 1 < 2 ^ 11 := not_le.mp hhuge
      have hexponent : (BitVec.ofNat 11 biased).toNat = biased := Nat.mod_eq_of_lt (by omega)
      have hmantissa := (BitVec.ofNat 52 m).isLt
      rw [toNat_packComponents, hexponent]
      show biased * 2 ^ 52 + _ ≤ 2047 * 2 ^ 52
      omega
    · have hmantissa := (BitVec.ofNat 52 m).isLt
      rw [toNat_packComponents]
      show 0 * 2 ^ 52 + _ ≤ 2047 * 2 ^ 52
      omega

theorem isUnsigned_roundWithAccuracy (m : ℕ) (e : ℤ) (accuracy : Accuracy) :
    IsUnsigned (roundWithAccuracy Format.binary64 .positive m e accuracy) := by
  unfold roundWithAccuracy
  dsimp only
  split <;> rfl

theorem isNonneg_toFloat (w : UInt64) : IsNonneg w.toFloat := by
  apply isNonneg_pack
  show IsUnsigned (UnpackedFloat.normalize Format.binary64 w.toNat 0 .positive)
  unfold UnpackedFloat.normalize
  rcases Nat.eq_zero_or_pos w.toNat with hzero | hpos
  · rw [hzero]
    rfl
  · rw [compare_gt_iff_gt.mpr (by exact_mod_cast hpos)]
    exact isUnsigned_roundWithAccuracy _ _ _

/-- What is finite and has no minus sign. -/
theorem zero_or_finite_of_isNonneg (h : IsNonneg x) (hx : IsFinite x) :
    x.toModel.unpack = .zero .positive ∨
      ∃ m e hm, x.toModel.unpack = .finite .positive m e hm := by
  rcases unpack_of_isNonneg h with ⟨-, hu⟩ | ⟨-, hu⟩ | ⟨m, e, hc, -, hu⟩
  · exact .inl hu
  · rcases isFinite_iff.mp hx with ⟨s, hs⟩ | ⟨s, m, e, hm, hs⟩ <;> rw [hs] at hu <;> cases hu
  · exact .inr ⟨m, e, hc.pos, hu⟩

theorem isNonneg_mul (hx : IsNonneg x) (hfinite : IsFinite x) {m : ℕ} {e : ℤ} {hm : 0 < m}
    (hy : y.toModel.unpack = .finite .positive m e hm) : IsNonneg (x * y) := by
  rw [mul_eq, hy]
  apply isNonneg_pack
  rcases zero_or_finite_of_isNonneg hx hfinite with hu | ⟨m', e', hm', hu⟩ <;> rw [hu]
  · rfl
  · exact isUnsigned_roundWithAccuracy _ _ _

/-- Of the floats without a minus sign only infinity equals infinity. -/
theorem isFinite_of_isNonneg (h : IsNonneg x) (hne : (x == 1.0 / 0.0) = false) : IsFinite x := by
  rcases unpack_of_isNonneg h with ⟨-, hu⟩ | ⟨hrank, -⟩ | ⟨m, e, hc, -, hu⟩
  · exact isFinite_iff.mpr (.inl ⟨_, hu⟩)
  · have heq : x = 1.0 / 0.0 := rank_injective (hrank.trans rfl)
    rw [heq] at hne
    exact absurd hne (by decide)
  · exact isFinite_iff.mpr (.inr ⟨_, m, e, hc.pos, hu⟩)

theorem beq_infinity_of_isFinite (h : IsFinite x) : (x == 1.0 / 0.0) = false := by
  have hinfinity : (1.0 / 0.0 : Float).toModel.unpack = .infinity .positive := rfl
  show UnpackedFloat.beq x.toModel.unpack (1.0 / 0.0 : Float).toModel.unpack = false
  rw [hinfinity]
  rcases isFinite_iff.mp h with ⟨s, hs⟩ | ⟨s, m, e, hm, hs⟩ <;> rw [hs]
  · rfl
  · cases s <;> rfl

theorem isFinite_neg (h : IsFinite x) : IsFinite (-x) := LawfulEnergies.finite_neg x h

end Unsigned

section PowersOfTen
open Json.Numeral

/-- Significand and exponent of a number without a minus sign. -/
def positive? : UnpackedFloat → Option (ℕ × ℤ)
  | .finite .positive m e _ => some (m, e)
  | _ => none

theorem unpack_of_positive? {u : UnpackedFloat} {m : ℕ} {e : ℤ} (h : positive? u = some (m, e)) :
    ∃ hm, u = .finite .positive m e hm := by
  cases u with
  | finite s m' e' hm =>
    cases s with
    | positive => obtain ⟨rfl, rfl⟩ := Prod.mk.inj (Option.some.inj h); exact ⟨hm, rfl⟩
    | negative => cases h
  | _ => cases h

/-- The powers that are stored exactly, and the largest ones. -/
theorem positive?_powerOfTen : ∀ k < 309, k < 23 ∨ 304 < k →
    (positive? (powerOfTen k).toModel.unpack).any
      (fun (_, e) => -52 ≤ e ∧ e + 51 ≤ (10 ^ k).log2) = true := by
  decide +kernel

/-- Three places take no more than ten bits. -/
theorem log2_ten_pow_lt {k j : ℕ} (h : k ≤ 3 * j + 1) : (10 ^ k).log2 < 10 * j + 4 := by
  rw [Nat.log2_lt (by positivity)]
  calc 10 ^ k ≤ 10 ^ (3 * j + 1) := Nat.pow_le_pow_right (by decide) h
    _ = (10 ^ 3) ^ j * 10 := by rw [pow_succ, pow_mul]
    _ < (2 ^ 10) ^ j * 2 ^ 4 :=
        Nat.mul_lt_mul_of_le_of_lt (Nat.pow_le_pow_left (by decide) j) (by decide) (by positivity)
    _ = 2 ^ (10 * j + 4) := by rw [pow_add, pow_mul]

theorem powerOfTen_eq {k : ℕ} (hlow : 22 < k) (hhigh : k ≤ 308) :
    powerOfTen k = .ofModel
      (.pack (roundWithAccuracy Format.binary64 .positive (2 ^ 53 * 10 ^ k) (-53) .exact)) := by
  have hmodel : powerOfTen k = .ofModel (Float.Model.ofScientific 1 k) :=
    dif_neg fun h => absurd h.2 (by omega)
  have hbits : (2 : ℤ) ^ Format.binary64.exponentBits = 2048 := rfl
  rw [hmodel]
  unfold Float.Model.ofScientific UnpackedFloat.ofScientific
  rw [dif_neg one_ne_zero, if_neg (by rw [hbits]; omega), if_neg (by rw [hbits]; omega),
    if_pos (by omega)]
  rfl

/-- A power between them. -/
theorem unpack_powerOfTen_of_lt {k : ℕ} (hlow : 22 < k) (hhigh : k ≤ 304) : ∃ m e hm,
    (powerOfTen k).toModel.unpack = .finite .positive m e hm ∧ -52 ≤ e ∧ e + 51 ≤ (10 ^ k).log2 := by
  have hp : 0 < 10 ^ k := by positivity
  have hlog : (2 ^ 53 * 10 ^ k).log2 = (10 ^ k).log2 + 53 := by
    rw [mul_comm, ← Nat.shiftLeft_eq, log2_shiftLeft hp]
  have hlower : 53 ≤ (10 ^ k).log2 := by
    rw [Nat.le_log2 hp.ne']
    exact le_trans (by decide) (Nat.pow_le_pow_right (by decide) hlow)
  have hupper : (10 ^ k).log2 < 10 * 101 + 4 := log2_ten_pow_lt hhigh
  obtain ⟨r, s, hrank, hst, hr, -, hfull⟩ :=
    exists_rounded (p := 2 ^ 53 * 10 ^ k) (e := -53) (by positivity) (by omega)
  have hfull := (hfull.resolve_right (by omega)).2
  have hrank := hrank (.inl (by omega))
  rw [← powerOfTen_eq hlow (by omega)] at hrank
  have hlt : rank (powerOfTen k) < infinityRank := by
    rw [hrank]
    unfold finiteRank infinityRank
    omega
  rcases unpack_of_isNonneg hlt.le with ⟨hzero, -⟩ | ⟨hinf, -⟩ | ⟨m, e, hc, hrank', hu⟩
  · rw [hzero] at hrank
    unfold finiteRank at hrank
    omega
  · exact absurd hinf hlt.ne
  · refine ⟨m, e, hc.pos, hu, ?_⟩
    have heq : finiteRank m e = finiteRank r (-53 + s) := hrank'.symm.trans hrank
    obtain ⟨hpos, hm, he, -, -⟩ := hc
    unfold finiteRank at heq
    omega

theorem unpack_powerOfTen {k : ℕ} (hk : k ≤ 308) : ∃ m e hm,
    (powerOfTen k).toModel.unpack = .finite .positive m e hm ∧ -52 ≤ e ∧ e + 51 ≤ (10 ^ k).log2 := by
  by_cases hends : k < 23 ∨ 304 < k
  · have hany := positive?_powerOfTen k (Nat.lt_succ_of_le hk) hends
    obtain ⟨⟨m, e⟩, hsome, he⟩ := (Option.any_eq_true _ _).mp hany
    obtain ⟨hm, hu⟩ := unpack_of_positive? hsome
    exact ⟨m, e, hm, hu, of_decide_eq_true he⟩
  · exact unpack_powerOfTen_of_lt (by omega) (by omega)

end PowersOfTen

section Numerals
open Json Json.Numeral
variable {x y : Float} {j e : ℤ}

theorem upTo_div_powerOfTen {k : ℕ} (hk : k ≤ 308) (hj : -1074 ≤ j) (hj' : j + 53 ≤ 971)
    (hx : UpTo j x.toModel.unpack) : UpTo (j + 53) (x / powerOfTen k).toModel.unpack := by
  obtain ⟨m, e, hm, hu, he, -⟩ := unpack_powerOfTen hk
  have hquotient := upTo_div (d := 52) (by decide) hj (by omega) hx hu he
  rwa [show j + 52 + 1 = j + 53 by ring] at hquotient

/-- Nothing is out of range on the way down. -/
theorem exists_scale_of_neg {count : ℕ} (he : e < 0) (hj : -1074 ≤ j)
    (hcount : j + 53 * (count + 1) ≤ 971) (hx : UpTo j x.toModel.unpack) :
    ∃ y, scale count x e = some y ∧ IsFinite y := by
  induction count generalizing x j e with
  | zero =>
    rw [scale]
    split_ifs with hnear hsign hzero
    · omega
    · exact ⟨_, rfl, isFinite_of_upTo (upTo_div_powerOfTen hnear hj (by omega) hx)⟩
    · exact ⟨x, rfl, isFinite_of_upTo hx⟩
    · omega
    · exact ⟨0.0, rfl, isFinite_zero⟩
  | succ count ih =>
    rw [scale]
    split_ifs with hnear hsign hzero
    · omega
    · exact ⟨_, rfl, isFinite_of_upTo (upTo_div_powerOfTen hnear hj (by omega) hx)⟩
    · exact ⟨x, rfl, isFinite_of_upTo hx⟩
    · omega
    · push_cast at hcount
      exact ih (by omega) (by omega) (by omega)
        (upTo_div_powerOfTen le_rfl hj (by omega) hx)

theorem isFinite_of_scale {count : ℕ} (hcount : count ≤ 3) (hx : UpTo 12 x.toModel.unpack)
    (hnonneg : IsNonneg x) (h : scale count x e = some y) : IsFinite y := by
  have hroom : (12 : ℤ) + 53 * (count + 1) ≤ 971 := by omega
  rcases lt_or_ge e 0 with he | he
  · obtain ⟨y', hy', hfinite⟩ := exists_scale_of_neg he (by decide) hroom hx
    obtain rfl := Option.some.inj (hy'.symm.trans h)
    exact hfinite
  rw [scale.eq_def] at h
  dsimp only at h
  split_ifs at h with hnear hinf hzero
  · obtain rfl := Option.some.inj h
    obtain ⟨m, f, hm, hu, -⟩ := unpack_powerOfTen hnear
    exact isFinite_of_isNonneg (isNonneg_mul hnonneg (isFinite_of_upTo hx) hu)
      (Bool.eq_false_iff.mpr hinf)
  · obtain rfl := Option.some.inj h
    exact isFinite_of_upTo hx

theorem isFinite_of_magnitude? {n : Numeral} (h : n.magnitude? = some x) : IsFinite x := by
  have hscale {w : UInt64} {e : ℤ} (h : scale 3 w.toFloat e = some x) : IsFinite x :=
    isFinite_of_scale le_rfl (upTo_toFloat w) (isNonneg_toFloat w) h
  rw [magnitude?] at h
  dsimp only at h
  split at h
  case h_1 => exact hscale h
  case h_2 =>
    split_ifs at h
    · obtain rfl := Option.some.inj h
      exact isFinite_zero
    all_goals exact hscale h

/-- What is read as a float is finite. -/
theorem isFinite_of_toFloat? {n : Numeral} (h : n.toFloat? = some x) : IsFinite x := by
  obtain ⟨y, hy, rfl⟩ := Option.map_eq_some_iff.mp h
  have hfinite := isFinite_of_magnitude? hy
  split
  · exact isFinite_neg hfinite
  · exact hfinite

end Numerals

end Qubo.Float64

import Mathlib.Tactic
import Qubo.Proofs.Float.Rank

/-! Products with a ratio below one: rounding never takes them above the other factor, and takes
them back up to it only among the smallest floats, where the step from one to the next is too
coarse for the ratio. -/
namespace Qubo.Float64
open Float.Model Float.Model.UnpackedFloat

theorem targetExponent_eq (t : ℤ) : Format.binary64.targetExponent t = max (t - 53) (-1074) := by
  simp only [Format.targetExponent]
  rfl

/-- A significand shifted to the right: what is left of it, and that the bit dropped last is set
only if at least half a unit has been dropped. -/
theorem shiftRight_spec (p s : ℕ) :
    ((⟨p, false, false⟩ : ExtendedMantissa) >>> s).mantissa = p / 2 ^ s ∧
      (((⟨p, false, false⟩ : ExtendedMantissa) >>> s).roundBit = true →
        2 ^ s * (2 * (p / 2 ^ s) + 1) ≤ 2 * p) := by
  induction s with
  | zero => exact ⟨(Nat.div_one p).symm, Bool.noConfusion⟩
  | succ s ih =>
    obtain ⟨hmantissa, -⟩ := ih
    have hstep : (⟨p, false, false⟩ : ExtendedMantissa) >>> (s + 1) =
        ((⟨p, false, false⟩ : ExtendedMantissa) >>> s).shiftRightOne := rfl
    have hdiv : p / 2 ^ (s + 1) = p / 2 ^ s / 2 := by rw [pow_succ, Nat.div_div_eq_div_mul]
    rw [hstep, ExtendedMantissa.shiftRightOne, hmantissa, hdiv]
    refine ⟨rfl, fun hbit => ?_⟩
    have hodd : 2 * (p / 2 ^ s / 2) + 1 = p / 2 ^ s := by
      have : p / 2 ^ s % 2 ≠ 0 := by simpa using hbit
      omega
    have hle : 2 ^ s * (p / 2 ^ s) ≤ p := Nat.mul_div_le p _
    rw [hodd, pow_succ]
    linarith

theorem roundedMantissa_eq_or (em : ExtendedMantissa) :
    em.roundedMantissa = em.mantissa ∨
      em.roundBit = true ∧ em.roundedMantissa ≤ em.mantissa + 1 ∧
        em.mantissa ≤ em.roundedMantissa := by
  obtain ⟨mantissa, roundBit, stickyBit⟩ := em
  cases roundBit with
  | false => exact Or.inl (by cases stickyBit <;> rfl)
  | true =>
    refine Or.inr ⟨rfl, ?_⟩
    cases stickyBit with
    | false =>
      show mantissa + mantissa % 2 ≤ mantissa + 1 ∧ mantissa ≤ mantissa + mantissa % 2
      omega
    | true =>
      show mantissa + 1 ≤ mantissa + 1 ∧ mantissa ≤ mantissa + 1
      omega

/-- Rounding does not pass a whole number from which the exact value is less than half a unit
away. -/
theorem roundedMantissa_shiftRight_le {p s k : ℕ} (h : 2 * p < 2 ^ s * (2 * k + 1)) :
    ((⟨p, false, false⟩ : ExtendedMantissa) >>> s).roundedMantissa ≤ k := by
  obtain ⟨hmantissa, hbit⟩ := shiftRight_spec p s
  have hfloor : 2 ^ s * (p / 2 ^ s) ≤ p := Nat.mul_div_le p _
  rcases roundedMantissa_eq_or ((⟨p, false, false⟩ : ExtendedMantissa) >>> s) with
    heq | ⟨hround, hle, -⟩
  · rw [heq, hmantissa]
    have hlt : 2 ^ s * (2 * (p / 2 ^ s)) < 2 ^ s * (2 * k + 1) := by linarith
    have := Nat.lt_of_mul_lt_mul_left hlt
    omega
  · rw [hmantissa] at hle
    have := Nat.lt_of_mul_lt_mul_left ((hbit hround).trans_lt h)
    omega

theorem le_roundedMantissa_shiftRight (p s : ℕ) :
    p / 2 ^ s ≤ ((⟨p, false, false⟩ : ExtendedMantissa) >>> s).roundedMantissa := by
  obtain ⟨hmantissa, -⟩ := shiftRight_spec p s
  rw [← hmantissa]
  rcases roundedMantissa_eq_or ((⟨p, false, false⟩ : ExtendedMantissa) >>> s) with
    heq | ⟨-, -, hle⟩
  · exact heq.ge
  · exact hle

/-- A significand of no more than 53 bits stays as it is; a carry into the next binade is the next
pattern too. -/
theorem rank_finish {r : ℕ} {t : ℤ} (ht : -1074 ≤ t) (hr : r ≤ 2 ^ 53)
    (hfull : 2 ^ 52 ≤ r ∨ t = -1074) (hover : t ≤ 970 ∨ t ≤ 971 ∧ r < 2 ^ 53) :
    let shifted := shiftToTargetExponent Format.binary64 r t .exact
    rank (.ofModel (.pack (if h : shifted.1.mantissa = 0 then .zero .positive
      else .finite .positive shifted.1.mantissa shifted.2 (Nat.pos_of_ne_zero h)))) =
      finiteRank r t := by
  intro shifted
  have hshift {k : ℕ} (hk : (Format.binary64.targetExponent (totalExponent r t) - t).toNat = k) :
      shifted.1.mantissa = r / 2 ^ k ∧ shifted.2 = t + k := by
    subst hk
    exact ⟨(shiftRight_spec r _).1, rfl⟩
  rw [targetExponent_eq, totalExponent] at hshift
  have hfinite {m : ℕ} {e : ℤ} (hm : shifted.1.mantissa = m) (he : shifted.2 = e)
      (h : Canonical m e) (hrank : finiteRank m e = finiteRank r t) :
      rank (.ofModel (.pack (if h : shifted.1.mantissa = 0 then .zero .positive
        else .finite .positive shifted.1.mantissa shifted.2 (Nat.pos_of_ne_zero h)))) =
        finiteRank r t := by
    subst hm he
    rw [dif_neg h.pos.ne', rank_pack h, hrank]
  rcases Nat.eq_zero_or_pos r with rfl | hpos
  · obtain rfl : t = -1074 := hfull.resolve_left (by decide)
    have hzero : shifted.1.mantissa = 0 := (hshift (k := 0) (by decide)).1
    rw [dif_pos hzero, rank_pack_zero]
    rfl
  rcases hr.lt_or_eq with hlt | rfl
  · have hlog : r.log2 < 53 := (Nat.log2_lt hpos.ne').mpr hlt
    obtain ⟨hm, he⟩ := hshift (k := 0) (by omega)
    have hcanonical : Canonical r t := ⟨hpos, hlt, ht, by omega, hfull⟩
    exact hfinite (hm.trans (Nat.div_one r)) (he.trans (add_zero t)) hcanonical rfl
  · have hlog : (2 ^ 53).log2 = 53 := Nat.log2_two_pow
    obtain ⟨hm, he⟩ := hshift (k := 1) (by rw [hlog]; omega)
    have hcanonical : Canonical (2 ^ 52) (t + 1) :=
      ⟨by decide, by decide, by omega, by omega, Or.inl le_rfl⟩
    refine hfinite hm he hcanonical ?_
    unfold finiteRank
    omega

/-- What a number is rounded to, as a significand at the exponent that leaves 53 bits, unless the
exponent is the least one. -/
theorem exists_rounded {p : ℕ} {e : ℤ} (hp : 0 < p)
    (he : e ≤ max ((p.log2 : ℤ) + 1 + e - 53) (-1074)) : ∃ r s : ℕ,
    (e + s ≤ 970 ∨ e + s ≤ 971 ∧ r < 2 ^ 53 →
      rank (.ofModel (.pack (roundWithAccuracy Format.binary64 .positive p e .exact))) =
        finiteRank r (e + s)) ∧
    e + s = max ((p.log2 : ℤ) + 1 + e - 53) (-1074) ∧ r ≤ 2 ^ 53 ∧
    (∀ k, 2 * p < 2 ^ s * (2 * k + 1) → r ≤ k) ∧
    (2 ^ (s + 52) ≤ p ∧ 2 ^ 52 ≤ r ∨ e + s = -1074) := by
  have htarget : Format.binary64.targetExponent (totalExponent p e) =
      max ((p.log2 : ℤ) + 1 + e - 53) (-1074) := targetExponent_eq _
  obtain ⟨s, hs⟩ := Int.eq_ofNat_of_zero_le (sub_nonneg.mpr he)
  have hshift : shiftToTargetExponent Format.binary64 p e .exact =
      ((⟨p, false, false⟩ : ExtendedMantissa) >>> s, e + s) := by
    unfold shiftToTargetExponent shiftToExponent
    simp only [htarget, hs]
    rfl
  have hupper : p < 2 ^ (s + 53) :=
    Nat.lt_log2_self.trans_le (Nat.pow_le_pow_right two_pos (by omega))
  have hlower : 2 ^ (s + 52) ≤ p ∨ e + s = -1074 := by
    by_cases hleast : e + s = -1074
    · exact Or.inr hleast
    · exact Or.inl ((Nat.pow_le_pow_right two_pos (by omega)).trans (Nat.log2_self_le hp.ne'))
  have hround (k : ℕ) (hk : 2 * p < 2 ^ s * (2 * k + 1)) :
      ((⟨p, false, false⟩ : ExtendedMantissa) >>> s).roundedMantissa ≤ k :=
    roundedMantissa_shiftRight_le hk
  have hr : ((⟨p, false, false⟩ : ExtendedMantissa) >>> s).roundedMantissa ≤ 2 ^ 53 := by
    refine hround _ ?_
    rw [pow_add] at hupper
    linarith [Nat.two_pow_pos s]
  have hfull (hp : 2 ^ (s + 52) ≤ p) :
      2 ^ 52 ≤ ((⟨p, false, false⟩ : ExtendedMantissa) >>> s).roundedMantissa := by
    refine le_trans ?_ (le_roundedMantissa_shiftRight p s)
    rwa [Nat.le_div_iff_mul_le (Nat.two_pow_pos s), ← pow_add, add_comm 52]
  refine ⟨_, s, fun hover => ?_, by omega, hr, hround, hlower.imp_left fun h => ⟨h, hfull h⟩⟩
  have hfinish := rank_finish (by omega) hr (hlower.imp_left hfull) hover
  unfold roundWithAccuracy
  rw [hshift]
  exact hfinish

/-- A number and a ratio below one, both as floats store them. -/
structure Shrinking (m : ℕ) (e : ℤ) (n : ℕ) (f : ℤ) : Prop where
  factor : Canonical m e
  ratio : Canonical n f
  below : f ≤ -53

section
variable {m n : ℕ} {e f : ℤ}

theorem two_pow_53_le {s : ℕ} (hs : 53 ≤ s) : 2 ^ 53 ≤ 2 ^ s := Nat.pow_le_pow_right two_pos hs

/-- What the product is rounded to, at an exponent no larger than that of the number. -/
theorem Shrinking.exists_rounded (h : Shrinking m e n f) : ∃ r s : ℕ, ∃ t : ℤ,
    rank (.ofModel (.pack (roundWithAccuracy Format.binary64 .positive (m * n) (e + f) .exact))) =
      finiteRank r t ∧ t = e + f + s ∧ -1074 ≤ t ∧ t ≤ e ∧ r ≤ 2 ^ 53 ∧
    (∀ k, 2 * (m * n) < 2 ^ s * (2 * k + 1) → r ≤ k) ∧
    (2 ^ (s + 52) ≤ m * n ∨ t = -1074) := by
  obtain ⟨⟨hm, hmlt, he, hge, hmfull⟩, ⟨hn, hnlt, hf, -, hnfull⟩, hbelow⟩ := h
  have hp : 0 < m * n := Nat.mul_pos hm hn
  have hlog : (m * n).log2 < 106 := (Nat.log2_lt hp.ne').mpr (by nlinarith)
  -- Only two of the smallest numbers have a product of fewer than 53 bits.
  have hbits : 52 ≤ (m * n).log2 ∨ e + f ≤ -1074 := by
    rcases hmfull with hmfull | rfl
    · exact Or.inl ((Nat.le_log2 hp.ne').mpr (hmfull.trans (Nat.le_mul_of_pos_right m hn)))
    rcases hnfull with hnfull | rfl
    · exact Or.inl ((Nat.le_log2 hp.ne').mpr (hnfull.trans (Nat.le_mul_of_pos_left n hm)))
    · exact Or.inr (by decide)
  obtain ⟨r, s, hrank, hst, hr, hround, hlower⟩ :=
    Float64.exists_rounded hp (e := e + f) (by omega)
  refine ⟨r, s, _, hrank ?_, rfl, by omega, by omega, hr, hround, hlower.imp_left And.left⟩
  rcases (show e + f + s ≤ e by omega).lt_or_eq with hlt | heq
  · exact Or.inl (by omega)
  -- At the exponent of the number itself the product is below it.
  · have hns : n ≤ 2 ^ s := hnlt.le.trans (two_pow_53_le (by omega))
    have hms : 2 * (m * n) < 2 ^ s * (2 * m + 1) := by nlinarith [Nat.two_pow_pos s]
    exact Or.inr ⟨by omega, (hround m hms).trans_lt hmlt⟩

/-- A product with a ratio below one is no larger than the other factor, and it is smaller unless
that is the least normal number or below. -/
theorem Shrinking.rank_product (h : Shrinking m e n f) {product : ℕ}
    (hproduct : rank (.ofModel (.pack
      (roundWithAccuracy Format.binary64 .positive (m * n) (e + f) .exact))) = product) :
    product ≤ finiteRank m e ∧ (2 ^ 52 < finiteRank m e → product < finiteRank m e) := by
  obtain ⟨r, s, t, hrank, hst, ht, hte, hr, hround, hlower⟩ := h.exists_rounded
  obtain ⟨⟨hm, hmlt, he, -, hmfull⟩, ⟨hn, hnlt, hf, -, hnfull⟩, hbelow⟩ := h
  obtain rfl := hproduct.symm.trans hrank
  rcases hte.lt_or_eq with hlt | rfl
  · -- The product has moved to a lower binade, or to the bottom of this one by a carry.
    have hmfull : 2 ^ 52 ≤ m := hmfull.resolve_right (by omega)
    have hstrict : finiteRank r t < finiteRank m e := by
      by_cases hlast : m = 2 ^ 52 ∧ t + 1 = e
      · obtain ⟨rfl, rfl⟩ := hlast
        have hs : 2 ^ 52 ≤ 2 ^ s := Nat.pow_le_pow_right two_pos (by omega)
        have hr : r ≤ 2 ^ 53 - 1 := hround _ (by omega)
        unfold finiteRank
        omega
      · unfold finiteRank
        omega
    exact ⟨hstrict.le, fun _ => hstrict⟩
  · -- The product stays in the binade of the number.
    have hs : 53 ≤ s := by omega
    have hpow := two_pow_53_le hs
    constructor
    · have hle : r ≤ m := hround m (by nlinarith)
      unfold finiteRank
      omega
    · intro hnormal
      -- The bottom of a binade would need a factor of one to stay where it is.
      have hm52 : 2 ^ 52 < m := by
        by_contra hle
        have hle := not_lt.mp hle
        have hleast : t ≠ -1074 := by
          rintro rfl
          exact absurd hnormal (by simpa [finiteRank] using hle)
        have hlower := hlower.resolve_right hleast
        have hmn : m * n ≤ 2 ^ 52 * n := Nat.mul_le_mul_right n hle
        rw [add_comm, pow_add] at hlower
        have hsn : 2 ^ s ≤ n := Nat.le_of_mul_le_mul_left (hlower.trans hmn) (Nat.two_pow_pos 52)
        omega
      have hlt : r ≤ m - 1 := by
        refine hround _ ?_
        calc 2 * (m * n) ≤ 2 * (m * (2 ^ 53 - 1)) :=
              Nat.mul_le_mul_left 2 (Nat.mul_le_mul_left m (by omega))
          _ < 2 ^ 53 * (2 * (m - 1) + 1) := by omega
          _ ≤ 2 ^ s * (2 * (m - 1) + 1) := Nat.mul_le_mul_right _ hpow
      unfold finiteRank
      omega

end

/-- The ratios of a schedule that shrinks. -/
theorem below_of_finiteRank_lt {n : ℕ} {f : ℤ} (h : Canonical n f)
    (hlt : finiteRank n f < 1023 * 2 ^ 52) : f ≤ -53 := by
  obtain ⟨-, -, hle, -, hfull⟩ := h
  unfold finiteRank at hlt
  omega

theorem mul_eq (x y : Float) : x * y = .ofModel (.pack
    (UnpackedFloat.mul Format.binary64 x.toModel.unpack y.toModel.unpack)) := rfl

/-- A float that is not negative, times a ratio between zero and one: the product is not negative
and no larger, and it is smaller if the float is finite and above the least normal number. -/
theorem rank_mul {x r : Float} (hx : IsNonneg x) (hr : IsNonneg r) (hpos : 0 < rank r)
    (hone : rank r < 1023 * 2 ^ 52) :
    rank (x * r) ≤ rank x ∧ (2 ^ 52 < rank x → rank x < infinityRank → rank (x * r) < rank x) := by
  obtain ⟨n, f, hratio, hrank, hur⟩ : ∃ n f, ∃ h : Canonical n f, rank r = finiteRank n f ∧
      r.toModel.unpack = .finite .positive n f h.pos := by
    rcases unpack_of_isNonneg hr with ⟨hzero, -⟩ | ⟨hinfinite, -⟩ | hfinite
    · exact absurd hzero hpos.ne'
    · rw [hinfinite] at hone
      exact absurd hone (by decide)
    · exact hfinite
  rw [mul_eq, hur]
  rcases unpack_of_isNonneg hx with ⟨hzero, hux⟩ | ⟨hinfinite, hux⟩ | ⟨m, e, hfactor, hrankx, hux⟩
  · have hproduct : UnpackedFloat.mul Format.binary64 (.zero .positive)
        (.finite .positive n f hratio.pos) = .zero .positive := rfl
    rw [hux, hproduct, rank_pack_zero, hzero]
    exact ⟨le_rfl, fun h => absurd h (by decide)⟩
  · have hproduct : UnpackedFloat.mul Format.binary64 (.infinity .positive)
        (.finite .positive n f hratio.pos) = .infinity .positive := rfl
    rw [hux, hproduct, rank_pack_infinity, hinfinite]
    exact ⟨le_rfl, fun _ h => absurd h (lt_irrefl _)⟩
  · have hshrinking : Shrinking m e n f :=
      ⟨hfactor, hratio, below_of_finiteRank_lt hratio (hrank ▸ hone)⟩
    have hproduct := hshrinking.rank_product rfl
    rw [hux, hrankx]
    exact ⟨hproduct.1, fun h _ => hproduct.2 h⟩

end Qubo.Float64

import Mathlib.Tactic
import Qubo.Proofs.Float.Finite

/-! Exact results: a number that a float holds is rounded to that float. So nothing is lost when a
coefficient is drawn, and it lies in the range that it is drawn from. -/
namespace Qubo.Float64
open Float.Model Float.Model.UnpackedFloat

section Exact
variable {m n : ℕ} {e z : ℤ}

/-- What is stored of a float is read back. -/
theorem unpack_pack (h : Canonical m e) :
    (Float.ofModel (.pack (.finite .positive m e h.pos))).toModel.unpack =
      .finite .positive m e h.pos := by
  have hrank := rank_pack h
  have hlt := finiteRank_lt h
  rcases unpack_of_isNonneg (hrank.trans_lt hlt).le with ⟨hr, -⟩ | ⟨hr, -⟩ | ⟨m', e', h', hr, hu⟩
  · exact absurd (hrank.symm.trans hr) (finiteRank_pos h).ne'
  · exact absurd (hrank.symm.trans hr) hlt.ne
  · have heq : finiteRank m' e' = finiteRank m e := hr.symm.trans hrank
    have hle := (finiteRank_lt_iff h' h).not.mp heq.not_lt
    have hge := (finiteRank_lt_iff h h').not.mp heq.not_gt
    obtain rfl : e' = e := by omega
    obtain rfl : m' = m := by omega
    exact hu

/-- Rounding leaves the exponent of a float as it is. -/
theorem Canonical.exponent_eq (h : Canonical m e) :
    max ((m.log2 : ℤ) + 1 + e - 53) (-1074) = e := by
  obtain ⟨hpos, hlt, hle, -, hfull⟩ := h
  have hupper := (Nat.log2_lt hpos.ne').mpr hlt
  rcases hfull with hfull | rfl
  · have hlower := (Nat.le_log2 hpos.ne').mpr hfull
    omega
  · omega

/-- Zeros at the end of a significand are dropped. -/
theorem roundWithAccuracy_shiftLeft (s : Sign) {a : ℕ} (h : Canonical m (e + a)) :
    roundWithAccuracy Format.binary64 s (m <<< a) e .exact = .finite s m (e + a) h.pos := by
  have htarget := h.exponent_eq
  have hfirst : shiftToTargetExponent Format.binary64 (m <<< a) e .exact =
      ((⟨m <<< a, false, false⟩ : ExtendedMantissa) >>> a, e + a) := by
    have hamount : (Format.binary64.targetExponent (totalExponent (m <<< a) e) - e).toNat = a := by
      rw [targetExponent_eq, totalExponent, log2_shiftLeft h.pos]
      omega
    unfold shiftToTargetExponent shiftToExponent
    simp only [hamount]
    rfl
  have hrounded : ((⟨m <<< a, false, false⟩ : ExtendedMantissa) >>> a).roundedMantissa = m := by
    have hpow := Nat.two_pow_pos a
    apply le_antisymm
    · apply roundedMantissa_shiftRight_le
      rw [Nat.shiftLeft_eq]
      linarith
    · have hle := le_roundedMantissa_shiftRight (m <<< a) a
      rwa [Nat.shiftLeft_eq, Nat.mul_div_cancel m hpow, ← Nat.shiftLeft_eq] at hle
  have hsecond : shiftToTargetExponent Format.binary64 m (e + a) .exact =
      (⟨m, false, false⟩, e + a) := by
    have hamount :
        (Format.binary64.targetExponent (totalExponent m (e + a)) - (e + a)).toNat = 0 := by
      rw [targetExponent_eq, totalExponent, htarget, sub_self, Int.toNat_zero]
    unfold shiftToTargetExponent shiftToExponent
    simp only [hamount, Int.natCast_zero, add_zero]
    rfl
  unfold roundWithAccuracy
  simp only [hfirst, hrounded, hsecond]
  exact dif_neg h.pos.ne'

/-- A number is rounded to a float of the same value. -/
theorem round_of_canonical (s : Sign) (h : Canonical m e)
    (hvalue : n <<< (z - e).toNat = m <<< (e - z).toNat) :
    UnpackedFloat.round Format.binary64 s n z = .finite s m e h.pos := by
  have hn : 0 < n := by
    rcases Nat.eq_zero_or_pos n with rfl | hn
    · rw [Nat.zero_shiftLeft, Nat.shiftLeft_eq] at hvalue
      exact absurd hvalue (Nat.mul_pos h.pos (Nat.two_pow_pos _)).ne
    · exact hn
  have hlog := congrArg Nat.log2 hvalue
  rw [log2_shiftLeft hn, log2_shiftLeft h.pos] at hlog
  have htarget : Format.binary64.targetExponent (totalExponent n z) = e := by
    rw [targetExponent_eq, totalExponent, ← h.exponent_eq]
    omega
  unfold UnpackedFloat.round decreaseExponent
  simp only [htarget]
  obtain ⟨a, ha⟩ : ∃ a : ℕ, e = z - (z - e).toNat + a := ⟨(e - z).toNat, by omega⟩
  have hshift : (e - z).toNat = a := by omega
  rw [hvalue, hshift]
  have hcanonical : Canonical m (z - (z - e).toNat + a) := ha ▸ h
  rw [roundWithAccuracy_shiftLeft s hcanonical]
  exact finite_congr rfl ha.symm

/-- A whole number of no more than 53 bits, brought to 53 bits. -/
theorem canonical_shiftLeft (hn : 0 < n) (hlog : n.log2 ≤ 52) (he : -1074 ≤ e) (he' : e ≤ 971) :
    Canonical (n <<< (52 - n.log2)) e := by
  have hpos : 0 < n <<< (52 - n.log2) := by
    rw [Nat.shiftLeft_eq]
    exact Nat.mul_pos hn (Nat.two_pow_pos _)
  have hbits : (n <<< (52 - n.log2)).log2 = 52 := by
    rw [log2_shiftLeft hn]
    omega
  refine ⟨hpos, (Nat.log2_lt hpos.ne').mp (hbits.trans_lt (by decide)), he, he', .inl ?_⟩
  exact (Nat.le_log2 hpos.ne').mp hbits.ge

end Exact

section Operations
variable {x : Float} {m : ℕ} {e : ℤ} (h : Canonical m e)
include h

theorem unpack_mul_one (hx : x.toModel.unpack = .finite .positive m e h.pos) :
    (x * 1.0).toModel.unpack = .finite .positive m e h.pos := by
  have hmul : UnpackedFloat.mul Format.binary64 (.finite .positive m e h.pos)
      (.finite .positive (2 ^ 52) (-52) (by decide)) = .finite .positive m e h.pos := by
    have hround := roundWithAccuracy_shiftLeft .positive (e := e + -52) (a := 52)
      (m := m) (by simpa using h)
    rw [Nat.shiftLeft_eq] at hround
    exact hround.trans (finite_congr rfl (by omega))
  rw [mul_eq, hx, unpack_one, hmul]
  exact unpack_pack h

/-- The quotient by a power of two differs in the exponent only. -/
theorem unpack_div_places (hfull : 2 ^ 52 ≤ m) (he : -1021 ≤ e) {f : ℤ} (h' : Canonical m f)
    (hf : e - 52 = f) (hx : x.toModel.unpack = .finite .positive m e h.pos) :
    (x / Float.ofNat (1 <<< 52)).toModel.unpack = .finite .positive m f h'.pos := by
  have hcore : divCore Format.binary64 m e (2 ^ 52) 0 = (m <<< 1, e - 53, .exact) := by
    have htarget : min (e - 0) (Format.binary64.targetExponent
        (totalExponent m e - totalExponent (2 ^ 52) 0)) = e - 53 := by
      have hplaces : (2 ^ 52).log2 = 52 := Nat.log2_two_pow
      have hlower := (Nat.le_log2 h.pos.ne').mpr hfull
      have hupper := (Nat.log2_lt h.pos.ne').mpr h.lt
      rw [targetExponent_eq, totalExponent, totalExponent, hplaces]
      omega
    have hshift : m <<< (e - 0 - (e - 53)).toNat = 2 ^ 52 * m <<< 1 := by
      rw [show (e - 0 - (e - 53)).toNat = 53 by omega, Nat.shiftLeft_eq, Nat.shiftLeft_eq]
      ring
    unfold divCore
    simp only [htarget]
    rw [hshift, Nat.mul_div_cancel_left _ (by decide), Nat.mul_mod_right]
    rfl
  have hexponent : e - 53 + (1 : ℕ) = f := by omega
  have hround : roundWithAccuracy Format.binary64 .positive (m <<< 1) (e - 53) .exact =
      .finite .positive m f h'.pos := by
    rw [roundWithAccuracy_shiftLeft .positive (hexponent.symm ▸ h')]
    exact finite_congr rfl hexponent
  have hquotient : x / Float.ofNat (1 <<< 52) = .ofModel (.pack (UnpackedFloat.div Format.binary64
    x.toModel.unpack (Float.ofNat (1 <<< 52)).toModel.unpack)) := rfl
  rw [hquotient, hx, unpack_places]
  unfold UnpackedFloat.div
  simp only [hcore]
  refine (congrArg (fun u => (Float.ofModel (.pack u)).toModel.unpack) hround).trans ?_
  exact unpack_pack h'

end Operations

section Coefficients
open Scalar
variable {n : ℕ}

/-- A whole number of no more than 53 bits is a float. -/
theorem unpack_ofNat (hn : 0 < n) (hlog : n.log2 ≤ 52)
    (h : Canonical (n <<< (52 - n.log2)) (n.log2 - 52)) : (Float.ofNat n).toModel.unpack =
      .finite .positive (n <<< (52 - n.log2)) (n.log2 - 52) h.pos := by
  have hlt : n < 2 ^ 53 := (Nat.log2_lt hn.ne').mp (Nat.lt_succ_of_le hlog)
  have hword : (UInt64.ofNat n).toFloat.toModel.unpack =
      .finite .positive (n <<< (52 - n.log2)) (n.log2 - 52) h.pos := by
    have htoFloat : (UInt64.ofNat n).toFloat = .ofModel (.pack (UnpackedFloat.normalize
      Format.binary64 (UInt64.ofNat n).toNat 0 .positive)) := rfl
    rw [htoFloat, UInt64.toNat_ofNat_of_lt' (hlt.trans (by decide))]
    unfold UnpackedFloat.normalize
    rw [compare_gt_iff_gt.mpr (by exact_mod_cast hn), Int.toNat_natCast,
      round_of_canonical .positive h]
    · exact unpack_pack h
    · rw [show (0 - ((n.log2 : ℤ) - 52)).toNat = 52 - n.log2 by omega,
        show ((n.log2 : ℤ) - 52 - 0).toNat = 0 by omega, Nat.shiftLeft_zero]
  rw [ofNat_eq hlt]
  exact unpack_mul_one h hword

/-- A difference that a float holds keeps its exponent. -/
theorem upTo_normalize_shiftLeft {N z k : ℤ} {d s : ℕ} (hN : N.natAbs = d <<< s)
    (hlog : d.log2 ≤ 52) (hlow : -1022 ≤ z + s) (hk : z + s + d.log2 - 52 ≤ k) (hk' : k ≤ 971) :
    UpTo k (UnpackedFloat.normalize Format.binary64 N z .positive) := by
  have hround (sign : Sign) (hd : 0 < d) :
      UpTo k (UnpackedFloat.round Format.binary64 sign N.natAbs z) := by
    have h := canonical_shiftLeft hd hlog (e := z + s + d.log2 - 52) (by omega) (by omega)
    rw [hN, round_of_canonical sign h]
    · exact hk
    · rw [← Nat.shiftLeft_add, ← Nat.shiftLeft_add]
      congr 1
      omega
  have hd (hne : N ≠ 0) : 0 < d := by
    refine Nat.pos_of_ne_zero fun hzero => hne ?_
    rwa [hzero, Nat.zero_shiftLeft, Int.natAbs_eq_zero] at hN
  unfold UnpackedFloat.normalize
  rcases lt_trichotomy N 0 with hneg | hzero | hpos
  · rw [compare_lt_iff_lt.mpr hneg]
    show UpTo k (UnpackedFloat.round Format.binary64 .negative (-N).toNat z)
    rw [show (-N).toNat = N.natAbs by omega]
    exact hround .negative (hd hneg.ne)
  · rw [compare_eq_iff_eq.mpr hzero]
    trivial
  · rw [compare_gt_iff_gt.mpr hpos]
    show UpTo k (UnpackedFloat.round Format.binary64 .positive N.toNat z)
    rw [show N.toNat = N.natAbs by omega]
    exact hround .positive (hd hpos.ne')

/-- What is left of a fraction without its half has at most 51 places, and none of them is lost. -/
theorem upTo_sub_half (hn : 0 < n) (hlt : n < 2 ^ 52) {x : Float}
    (h : Canonical (n <<< (52 - n.log2)) (n.log2 - 104))
    (hx : x.toModel.unpack = .finite .positive (n <<< (52 - n.log2)) (n.log2 - 104) h.pos) :
    UpTo (-54) (x - half).toModel.unpack := by
  have hlog : n.log2 < 52 := (Nat.log2_lt hn.ne').mpr hlt
  have hfew : ((n : ℤ) - 2 ^ 51).natAbs.log2 ≤ 50 := by
    rcases Nat.eq_zero_or_pos ((n : ℤ) - 2 ^ 51).natAbs with hzero | hpos
    · rw [hzero]
      decide
    · exact Nat.lt_succ_iff.mp ((Nat.log2_lt hpos.ne').mpr (by omega))
  apply upTo_unpack_pack (by decide) (by decide)
  show UpTo (-54) (UnpackedFloat.sub Format.binary64 x.toModel.unpack (half : Float).toModel.unpack)
  rw [hx, unpack_half]
  have hmin : min ((n.log2 : ℤ) - 104) (-53) = n.log2 - 104 := by omega
  have hdifference : ((n <<< (52 - n.log2) <<< (n.log2 - 104 - (n.log2 - 104) : ℤ).toNat : ℕ) -
      (2 ^ 52 <<< (-53 - (n.log2 - 104) : ℤ).toNat : ℕ) : ℤ).natAbs =
      ((n : ℤ) - 2 ^ 51).natAbs <<< (52 - n.log2) := by
    have hhalf : 2 ^ 52 <<< (-53 - (n.log2 - 104) : ℤ).toNat = 2 ^ 51 * 2 ^ (52 - n.log2) := by
      rw [Nat.shiftLeft_eq, ← pow_add, ← pow_add]
      congr 1
      omega
    rw [hhalf, sub_self, Int.toNat_zero, Nat.shiftLeft_zero, Nat.shiftLeft_eq, Nat.shiftLeft_eq]
    push_cast
    rw [← sub_mul, Int.natAbs_mul, Int.natAbs_pow]
    rfl
  unfold UnpackedFloat.sub decreaseExponent
  simp only [hmin]
  exact upTo_normalize_shiftLeft hdifference (by omega) (by omega) (by omega) (by decide)

/-- A coefficient is minus one half, or less than one half away from zero. -/
theorem coefficient_cases (g : Random.Generator) :
    (Random.Draw.coefficient (α := Float) g).1.toModel.unpack =
        .finite .negative (2 ^ 52) (-53) (by decide) ∨
      UpTo (-54) (Random.Draw.coefficient (α := Float) g).1.toModel.unpack := by
  have hcoefficient : (Random.Draw.coefficient (α := Float) g).1 =
      Float.ofNat ((Random.Draw.word g).1 >>> 12).toNat / Float.ofNat (1 <<< 52) - half := rfl
  have hplaces := places_lt (Random.Draw.word g).1
  rw [hcoefficient]
  generalize ((Random.Draw.word g).1 >>> 12).toNat = n at hplaces
  rcases Nat.eq_zero_or_pos n with rfl | hn
  · exact .inl rfl
  · have hlog : n.log2 < 52 := (Nat.log2_lt hn.ne').mpr hplaces
    have h := canonical_shiftLeft hn hlog.le (e := n.log2 - 52) (by omega) (by omega)
    have h' := canonical_shiftLeft hn hlog.le (e := n.log2 - 104) (by omega) (by omega)
    refine .inr (upTo_sub_half hn hplaces h' ?_)
    exact unpack_div_places h (h.full.resolve_right (by omega)) (by omega) h' (by omega)
      (unpack_ofNat hn hlog.le h)

theorem coefficient_range (g : Random.Generator) :
    -half ≤ (Random.Draw.coefficient (α := Float) g).1 ∧
      (Random.Draw.coefficient (α := Float) g).1 < half := by
  have hleast : (-half : Float).toModel.unpack = .finite .negative (2 ^ 52) (-53) (by decide) := rfl
  rw [le_iff_compare, lt_iff_compare, hleast, unpack_half]
  rcases coefficient_cases g with hc | hc
  · rw [hc]
    decide
  · rcases hc.zero_or_finite with ⟨s, hu⟩ | ⟨s, m, e, hm, hu, -, he⟩ <;> rw [hu]
    · cases s <;> decide
    · have hlower : compare (-53) e = .gt := compare_gt_iff_gt.mpr (by omega)
      have hupper : compare e (-53) = .lt := compare_lt_iff_lt.mpr (by omega)
      cases s with
      | negative => simp [UnpackedFloat.compare, hlower]
      | positive => simp [UnpackedFloat.compare, hupper]

end Coefficients
end Qubo.Float64

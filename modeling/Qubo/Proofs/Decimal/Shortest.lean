import Mathlib.Tactic
import Qubo.Decimal.Shortest
import Qubo.Proofs.Decimal.Digits

/-! The search for the shortest decimal of a float. Seventeen digits always suffice, so what is
found lies in the interval that rounds to the float. -/
namespace Qubo.Decimal

theorem leadingExponent_spec {num den : ℕ} (hnum : 0 < num) (hden : 0 < den) :
    (10 : ℚ) ^ leadingExponent num den ≤ (num : ℚ) / den ∧
      (num : ℚ) / den < 10 ^ (leadingExponent num den + 1) := by
  have hnum' : (0 : ℚ) < num := by exact_mod_cast hnum
  have hden' : (0 : ℚ) < den := by exact_mod_cast hden
  rw [leadingExponent, le_div_iff₀ hden', div_lt_iff₀ hden']
  split
  case isTrue hle =>
    have hquot : num / den ≠ 0 := (Nat.div_pos hle hden).ne'
    have hlower := pow_length_digits_le hquot
    have hupper := lt_pow_length_digits hquot
    obtain ⟨l, hl⟩ : ∃ l, (digits (num / den)).length = l + 1 :=
      Nat.exists_eq_succ_of_ne_zero (by simp [digits_ne_nil])
    rw [hl] at hlower hupper ⊢
    have hle : 10 ^ l * den ≤ num :=
      (Nat.le_div_iff_mul_le hden).mp (by rw [pow_succ] at hlower; omega)
    have hlt : num < 10 ^ (l + 1) * den := (Nat.div_lt_iff_lt_mul hden).mp hupper
    rw [show ((l + 1 : ℕ) : ℤ) - 1 = (l : ℕ) by push_cast; ring,
      show ((l : ℕ) : ℤ) + 1 = ((l + 1 : ℕ) : ℤ) by push_cast; ring, zpow_natCast, zpow_natCast]
    exact ⟨by exact_mod_cast hle, by exact_mod_cast hlt⟩
  case isFalse hgt =>
    have hquot : (den + num - 1) / num - 1 = (den - 1) / num := by
      rw [show den + num - 1 = den - 1 + num by omega, Nat.add_div_right _ hnum]
      rfl
    rw [hquot]
    have hne : (den - 1) / num ≠ 0 := (Nat.div_pos (by omega) hnum).ne'
    have hlower := pow_length_digits_le hne
    have hupper := lt_pow_length_digits hne
    obtain ⟨l, hl⟩ : ∃ l, (digits ((den - 1) / num)).length = l + 1 :=
      Nat.exists_eq_succ_of_ne_zero (by simp [digits_ne_nil])
    rw [hl] at hlower hupper ⊢
    have hle : 10 ^ l * num ≤ den - 1 :=
      (Nat.le_div_iff_mul_le hnum).mp (by rw [pow_succ] at hlower; omega)
    have hlt : den - 1 < 10 ^ (l + 1) * num := (Nat.div_lt_iff_lt_mul hnum).mp hupper
    have hle' : den ≤ 10 ^ (l + 1) * num := by omega
    have hlt' : 10 ^ l * num < den := by omega
    rw [show -((l + 1 : ℕ) : ℤ) + 1 = -(l : ℕ) by push_cast; ring, zpow_neg, zpow_neg,
      zpow_natCast, zpow_natCast, inv_mul_le_iff₀ (by positivity), lt_inv_mul_iff₀ (by positivity)]
    exact ⟨by exact_mod_cast hle', by exact_mod_cast hlt'⟩

namespace Interval
variable {i : Interval} {num den c : ℕ}

theorem bounds_of_contains (h : i.contains num den c = true) :
    i.low * num ≤ c * den ∧ c * den ≤ i.high * num ∧ (i.closed = false → c * den < i.high * num) := by
  rw [contains] at h
  split at h
  case isTrue hclosed =>
    simp only [Bool.and_eq_true, decide_eq_true_eq] at h
    exact ⟨h.1, h.2, fun hopen => by simp [hopen] at hclosed⟩
  case isFalse =>
    simp only [Bool.and_eq_true, decide_eq_true_eq] at h
    exact ⟨h.1.le, h.2.le, fun _ => h.2⟩

theorem contains_of_nearest? (h : i.nearest? num den = some c) : i.contains num den c = true := by
  rw [nearest?] at h
  split at h
  case h_1 hbelow habove =>
    dsimp only at h
    split_ifs at h <;> obtain rfl := Option.some.inj h <;> assumption
  case h_2 hbelow _ => cases h; exact hbelow
  case h_3 habove => cases h; exact habove
  case h_4 => cases h

/-- Two neighbours on a grid enclose the value; if neither lies in the interval, then the grid is
no finer than the interval is long. -/
theorem nearest?_isSome (hden : 0 < den) (hlow : i.low < i.value) (hhigh : i.value < i.high)
    (hnum : 0 < num) (hfine : den + i.low * num < i.high * num) :
    (i.nearest? num den).isSome = true := by
  have hfloor : i.value * num / den * den ≤ i.value * num := Nat.div_mul_le_self _ _
  have hceil : i.value * num < (i.value * num / den + 1) * den :=
    Nat.lt_mul_of_div_lt (Nat.lt_succ_self _) hden
  have hlow' : i.low * num < i.value * num := Nat.mul_lt_mul_of_pos_right hlow hnum
  have hhigh' : i.value * num < i.high * num := Nat.mul_lt_mul_of_pos_right hhigh hnum
  by_contra hnone
  rw [nearest?] at hnone
  split at hnone
  case h_4 hbelow habove =>
    rw [Nat.succ_mul] at hceil
    rw [contains] at hbelow habove
    rw [Nat.succ_mul] at habove
    generalize i.value * num / den * den = below at *
    generalize i.low * num = low, i.value * num = value, i.high * num = high at *
    cases hclosed : i.closed <;> simp [hclosed] at hbelow habove <;> omega
  case h_1 => dsimp only at hnone; split_ifs at hnone <;> simp at hnone
  case h_2 => simp at hnone
  case h_3 => simp at hnone

/-- The decimal of the grid with unit `10 ^ p` that is nearest to the value. -/
def hit? (i : Interval) (num den : ℕ) (p : ℤ) : Option ℕ :=
  if 0 ≤ p then i.nearest? num (den * tenTo p.toNat)
  else i.nearest? (num * tenTo (-p).toNat) den

/-- The grid with unit `10 ^ p`, in the terms of the interval. -/
theorem exists_grid (i : Interval) (hnum : 0 < num) (hden : 0 < den) (p : ℤ) :
    ∃ num' den', i.hit? num den p = i.nearest? num' den' ∧ 0 < num' ∧ 0 < den' ∧
      (den' : ℚ) / num' = den / num * 10 ^ p := by
  rw [hit?]
  split
  case isTrue hp =>
    refine ⟨num, den * 10 ^ p.toNat, rfl, hnum, by positivity, ?_⟩
    nth_rewrite 2 [← Int.toNat_of_nonneg hp]
    rw [zpow_natCast]
    push_cast
    ring
  case isFalse hp =>
    refine ⟨num * 10 ^ (-p).toNat, den, rfl, by positivity, hden, ?_⟩
    have hneg : p = -((-p).toNat : ℤ) := by omega
    nth_rewrite 2 [hneg]
    rw [zpow_neg, zpow_natCast]
    push_cast
    rw [div_mul_eq_div_div]
    rfl

theorem bounds_of_hit? (hnum : 0 < num) (hden : 0 < den) {p : ℤ} (h : i.hit? num den p = some c) :
    (i.low : ℚ) ≤ c * (den / num * 10 ^ p) ∧ c * (den / num * 10 ^ p) ≤ (i.high : ℚ) ∧
      (i.closed = false → c * (den / num * 10 ^ p) < (i.high : ℚ)) := by
  obtain ⟨num', den', hgrid, hnum', hden', hunit⟩ := i.exists_grid hnum hden p
  obtain ⟨hlow, hhigh, hopen⟩ := bounds_of_contains (contains_of_nearest? (hgrid ▸ h))
  have hpos : (0 : ℚ) < num' := by exact_mod_cast hnum'
  rw [← hunit, ← mul_div_assoc, le_div_iff₀ hpos, div_le_iff₀ hpos, div_lt_iff₀ hpos]
  exact ⟨by exact_mod_cast hlow, by exact_mod_cast hhigh,
    fun hclosed => by exact_mod_cast hopen hclosed⟩

theorem hit?_isSome (hnum : 0 < num) (hden : 0 < den) (hlow : i.low < i.value)
    (hhigh : i.value < i.high) {p : ℤ} (h : (den / num * 10 ^ p : ℚ) + i.low < i.high) :
    (i.hit? num den p).isSome = true := by
  obtain ⟨num', den', hgrid, hnum', hden', hunit⟩ := i.exists_grid hnum hden p
  have hpos : (0 : ℚ) < num' := by exact_mod_cast hnum'
  rw [hgrid]
  apply nearest?_isSome hden' hlow hhigh hnum'
  rw [← hunit, div_add' _ _ _ hpos.ne', div_lt_iff₀ hpos] at h
  exact_mod_cast h

end Interval

theorem shortestFrom_succ (i : Interval) (num den n : ℕ) (p : ℤ) :
    shortestFrom i num den (n + 1) p =
      match i.hit? num den p with
      | some c => (c, p)
      | none => shortestFrom i num den n (p - 1) := rfl

/-- The search ends with a hit, at the grid where one is certain or before it. -/
theorem shortestFrom_spec {i : Interval} {num den n k : ℕ} {p : ℤ} (hk : k < n)
    (h : (i.hit? num den (p - k)).isSome = true) :
    i.hit? num den (shortestFrom i num den n p).2 = some (shortestFrom i num den n p).1 ∧
      p - k ≤ (shortestFrom i num den n p).2 := by
  induction n generalizing p k with
  | zero => cases hk
  | succ n ih =>
    rw [shortestFrom_succ]
    cases hhit : i.hit? num den p with
    | some c => exact ⟨hhit, by simp⟩
    | none =>
      cases k with
      | zero => simp [hhit] at h
      | succ k =>
        obtain ⟨hfound, hbound⟩ := ih (k := k) (p := p - 1) (by omega) (by
          rw [show p - 1 - (k : ℤ) = p - ((k + 1 : ℕ) : ℤ) by push_cast; ring]
          exact h)
        exact ⟨hfound, by push_cast; omega⟩

/-- What the shortest decimal of `m * 2 ^ q` is relied on for: it lies within half a unit of the
float, which an odd significand does not reach, and it has no more than eighteen digits. -/
structure IsShort (m : ℕ) (q : ℤ) (c : ℕ) (p : ℤ) : Prop where
  pos : 0 < c
  le : (c * 10 ^ p : ℚ) ≤ (m + 1 / 2) * 2 ^ q
  lt : m % 2 = 1 → (c * 10 ^ p : ℚ) < (m + 1 / 2) * 2 ^ q
  few : c < 15 * 10 ^ 16

theorem shiftLeft_div_shiftLeft (q : ℤ) :
    ((1 <<< q.toNat : ℕ) : ℚ) / (1 <<< (-q).toNat : ℕ) = 2 ^ q := by
  rw [Nat.one_shiftLeft, Nat.one_shiftLeft]
  push_cast
  rcases le_total 0 q with hq | hq
  · rw [Int.toNat_eq_zero.mpr (by omega : -q ≤ 0), pow_zero, div_one, ← zpow_natCast,
      Int.toNat_of_nonneg hq]
  · rw [Int.toNat_eq_zero.mpr hq, pow_zero, one_div, ← zpow_natCast,
      Int.toNat_of_nonneg (by omega), zpow_neg, inv_inv]

theorem Interval.low_around {m : ℕ} (q : ℤ) (hm : 0 < m) (hlt : m < 2 ^ 53) :
    2 ≤ (around m q).low ∧ (around m q).low < 4 * m ∧
      4 * m + 10 ^ 16 * (around m q).low < 10 ^ 16 * (around m q).high := by
  have hhigh : (around m q).high = 4 * m + 2 := rfl
  have hlow : (around m q).low = if m = hiddenBit ∧ q ≠ -1074 then 4 * m - 1 else 4 * m - 2 := rfl
  rw [hhigh, hlow]
  split
  case isTrue h =>
    obtain ⟨rfl, -⟩ := h
    decide
  case isFalse => omega

/-- The search for the decimal of `m * 2 ^ q`: it starts at the exponent of the leading digit, and
a unit of the interval is a quarter of that of the float. -/
theorem exists_search {m : ℕ} (q : ℤ) (hm : 0 < m) : ∃ num den : ℕ, ∃ e : ℤ,
    shortest m q = shortestFrom (.around m q) num den 17 e ∧ 0 < num ∧ 0 < den ∧
      (den / num : ℚ) = 4 / 2 ^ q ∧ (10 ^ e : ℚ) ≤ m * 2 ^ q ∧ (m * 2 ^ q : ℚ) < 10 ^ (e + 1) := by
  have hpos (k : ℕ) : 0 < 1 <<< k := by simp [Nat.one_shiftLeft]
  have hunit := shiftLeft_div_shiftLeft (q - 2)
  rw [neg_sub, zpow_sub₀ two_ne_zero] at hunit
  have hvaluepos : 0 < 4 * m * 1 <<< (q - 2).toNat :=
    Nat.mul_pos (Nat.mul_pos (by decide) hm) (hpos _)
  obtain ⟨hleast, hlead⟩ := leadingExponent_spec hvaluepos (hpos (2 - q).toNat)
  have hvalue : ((4 * m * 1 <<< (q - 2).toNat : ℕ) : ℚ) / (1 <<< (2 - q).toNat : ℕ) =
      m * 2 ^ q := by
    rw [Nat.cast_mul, mul_div_assoc, hunit]
    push_cast
    ring
  rw [hvalue] at hleast hlead
  refine ⟨_, _, _, rfl, hpos _, hpos _, ?_, hleast, hlead⟩
  rw [← inv_div, hunit]
  norm_num

section Search
variable {m num den : ℕ} {q e : ℤ}

/-- Seventeen digits make a grid that is finer than the interval is long. -/
theorem hit?_seventeen (hm : 0 < m) (hlt : m < 2 ^ 53) (hnum : 0 < num) (hden : 0 < den)
    (hunit : (den / num : ℚ) = 4 / 2 ^ q) (hleast : (10 ^ e : ℚ) ≤ m * 2 ^ q) :
    ((Interval.around m q).hit? num den (e - (16 : ℕ))).isSome = true := by
  obtain ⟨-, hlow, hfine⟩ := Interval.low_around q hm hlt
  have hgrid : (den / num * 10 ^ (e - (16 : ℕ)) : ℚ) ≤ 4 * m / 10 ^ 16 := by
    have hlead : (4 / 2 ^ q * 10 ^ e : ℚ) ≤ 4 * m := by
      rw [div_mul_eq_mul_div, div_le_iff₀ (by positivity), mul_assoc]
      exact mul_le_mul_of_nonneg_left hleast (by norm_num)
    rw [hunit, zpow_sub₀ (by norm_num), zpow_natCast, ← mul_div_assoc]
    exact div_le_div_of_nonneg_right hlead (by norm_num)
  have hfine' : (4 * m / 10 ^ 16 : ℚ) + (Interval.around m q).low < (Interval.around m q).high := by
    rw [div_add' _ _ _ (by norm_num), div_lt_iff₀ (by norm_num), mul_comm (Nat.cast _ : ℚ) (10 ^ 16),
      mul_comm (Nat.cast (Interval.high _) : ℚ)]
    exact_mod_cast hfine
  apply Interval.hit?_isSome hnum hden hlow (Nat.lt_add_of_pos_right (by decide))
  linarith

theorem IsShort.of_hit? (hm : 0 < m) (hlt : m < 2 ^ 53) (hnum : 0 < num) (hden : 0 < den)
    (hunit : (den / num : ℚ) = 4 / 2 ^ q) (hlead : (m * 2 ^ q : ℚ) < 10 ^ (e + 1)) {c : ℕ} {p : ℤ}
    (hhit : (Interval.around m q).hit? num den p = some c) (hp : e - 16 ≤ p) : IsShort m q c p := by
  obtain ⟨hge, hle, hopen⟩ := Interval.bounds_of_hit? hnum hden hhit
  have hhigh : ((Interval.around m q).high : ℚ) = (m + 1 / 2) * 2 ^ q * (4 / 2 ^ q) := by
    rw [show (Interval.around m q).high = 4 * m + 2 from rfl]
    push_cast
    field_simp
    ring
  have hregroup : (c * (den / num * 10 ^ p) : ℚ) = c * 10 ^ p * (4 / 2 ^ q) := by
    rw [hunit]
    ring
  rw [hregroup, hhigh, mul_le_mul_iff_left₀ (by positivity)] at hle
  constructor
  case pos =>
    have htwo : (2 : ℚ) ≤ (Interval.around m q).low := by
      exact_mod_cast (Interval.low_around q hm hlt).1
    by_contra hzero
    rw [Nat.eq_zero_of_not_pos hzero, Nat.cast_zero, zero_mul] at hge
    linarith
  case le => exact hle
  case lt =>
    intro hodd
    have hclosed : (Interval.around m q).closed = false := by
      show (m % 2 == 0) = false
      simp [hodd]
    have hlt := hopen hclosed
    rwa [hregroup, hhigh, mul_lt_mul_iff_left₀ (by positivity)] at hlt
  case few =>
    have hstep : (10 : ℚ) ^ (e + 1) ≤ 10 ^ p * 10 ^ 17 := by
      rw [← zpow_natCast, ← zpow_add₀ (by norm_num)]
      exact zpow_le_zpow_right₀ (by norm_num) (by push_cast; omega)
    have hone : (1 : ℚ) ≤ m := by exact_mod_cast hm
    have hupper : (c * 10 ^ p : ℚ) < (15 * 10 ^ 16 : ℕ) * 10 ^ p := by
      calc (c * 10 ^ p : ℚ) ≤ (m + 1 / 2) * 2 ^ q := hle
        _ ≤ 3 / 2 * m * 2 ^ q := by gcongr; linarith
        _ < 3 / 2 * (10 ^ p * 10 ^ 17) := by linarith
        _ = (15 * 10 ^ 16 : ℕ) * 10 ^ p := by push_cast; ring
    exact_mod_cast lt_of_mul_lt_mul_right hupper (by positivity)

end Search

theorem isShort_shortest {m : ℕ} (q : ℤ) (hm : 0 < m) (hlt : m < 2 ^ 53) :
    IsShort m q (shortest m q).1 (shortest m q).2 := by
  obtain ⟨num, den, e, hsearch, hnum, hden, hunit, hleast, hlead⟩ := exists_search q hm
  obtain ⟨hfound, hbound⟩ := shortestFrom_spec (n := 17) (by decide)
    (hit?_seventeen hm hlt hnum hden hunit hleast)
  rw [hsearch]
  exact .of_hit? hm hlt hnum hden hunit hlead hfound hbound

/-- The digits of a decimal: they begin with its leading digit, and what is left out of it are
zeros at its end. -/
theorem scientific_spec {c : ℕ} (p : ℤ) (hc : c ≠ 0) : ∃ (ds : List Digit) (k : ℕ),
    scientific c p = (ds, p + k + ds.length - 1) ∧ c = value ds * 10 ^ k ∧ ds ≠ [] ∧
      ds.head? ≠ some .zero := by
  have hsplit := List.takeWhile_append_dropWhile (p := (· == Digit.zero)) (l := digitsReversed c)
  obtain ⟨k, hk⟩ : ∃ k, (digitsReversed c).takeWhile (· == Digit.zero) = .replicate k .zero :=
    ⟨_, List.eq_replicate_iff.mpr ⟨rfl, fun d hd => by
      simpa using List.all_eq_true.mp List.all_takeWhile d hd⟩⟩
  rw [hk] at hsplit
  have hdigits : digits c =
      ((digitsReversed c).dropWhile (· == .zero)).reverse ++ .replicate k .zero := by
    rw [digits, ← hsplit, List.reverse_append, List.reverse_replicate, hsplit]
  rw [scientific]
  cases hkept : (digitsReversed c).dropWhile (· == .zero) with
  | nil =>
    rw [hkept] at hdigits
    have hvalue := value_digits c
    rw [hdigits, List.reverse_nil, List.nil_append, value_replicate_zero] at hvalue
    exact absurd hvalue.symm hc
  | cons d kept =>
    rw [hkept] at hdigits hsplit
    have hne : (d :: kept).reverse ≠ [] := by simp
    refine ⟨(d :: kept).reverse, k, ?_, ?_, hne, ?_⟩
    · rw [← hsplit, List.length_append, List.length_replicate, List.length_reverse]
      push_cast
      ring_nf
    · rw [← value_digits c, hdigits, value_append, value_replicate_zero, List.length_replicate,
        Nat.add_zero]
    · have hhead := head?_digits_ne_zero hc
      rwa [hdigits, List.head?_append_of_ne_nil _ hne] at hhead

end Qubo.Decimal

import Mathlib.Tactic
import Mathlib.Data.Nat.Digits.Lemmas
import Qubo.Decimal.Binary

/-! The digits of whole numbers: their value gives the number back, there are as many as its
size asks for, and the first of them is not zero. -/
namespace Qubo.Decimal

@[simp] theorem Digit.ofChar?_toChar (d : Digit) : Digit.ofChar? d.toChar = some d := by
  decide +revert

theorem value_eq_ofDigits (ds : List Digit) :
    value ds = Nat.ofDigits 10 (ds.reverse.map Fin.val) := by
  induction ds using List.reverseRecOn with
  | nil => rfl
  | append_singleton ds d ih =>
    rw [value, List.foldl_append, List.foldl_cons, List.foldl_nil, ← value, ih,
      List.reverse_append, List.reverse_singleton, List.singleton_append, List.map_cons,
      Nat.ofDigits_cons, add_comm]

@[simp] theorem value_cons (d : Digit) (ds : List Digit) :
    value (d :: ds) = d.val * 10 ^ ds.length + value ds := by
  rw [value_eq_ofDigits, value_eq_ofDigits, List.reverse_cons, List.map_append,
    Nat.ofDigits_append, List.length_map, List.length_reverse, List.map_singleton,
    Nat.ofDigits_singleton]
  ring

theorem value_append (ds es : List Digit) :
    value (ds ++ es) = value ds * 10 ^ es.length + value es := by
  induction ds with
  | nil => simp [value]
  | cons d ds ih =>
    rw [List.cons_append, value_cons, value_cons, ih, List.length_append, pow_add]
    ring

theorem value_lt (ds : List Digit) : value ds < 10 ^ ds.length := by
  induction ds with
  | nil => simp [value]
  | cons d ds ih =>
    have hd : d.val * 10 ^ ds.length ≤ 9 * 10 ^ ds.length :=
      Nat.mul_le_mul_right _ (Nat.le_of_lt_succ d.isLt)
    rw [value_cons, List.length_cons, pow_succ]
    omega

/-- A first digit other than zero counts fully. -/
theorem pow_length_le_value {d : Digit} (hd : d ≠ .zero) (ds : List Digit) :
    10 ^ ds.length ≤ value (d :: ds) := by
  rw [value_cons]
  have hpos : 0 < d.val := Nat.pos_of_ne_zero fun hzero => hd (Fin.ext hzero)
  exact (Nat.le_mul_of_pos_left _ hpos).trans (Nat.le_add_right _ _)

@[simp] theorem value_replicate_zero (n : ℕ) : value (List.replicate n Digit.zero) = 0 := by
  induction n with
  | zero => rfl
  | succ n ih => rw [List.replicate_succ, value_cons, ih]; simp [Digit.zero]

theorem map_val_digitsReversed {n : ℕ} (h : n ≠ 0) :
    (digitsReversed n).map Fin.val = Nat.digits 10 n := by
  induction n using Nat.strong_induction_on with
  | _ n ih =>
    rw [digitsReversed, Nat.digits_def' (by decide) (Nat.pos_of_ne_zero h)]
    split
    case isTrue hlt =>
      rw [Nat.div_eq_of_lt hlt, Nat.digits_zero]
      rfl
    case isFalse hge =>
      rw [List.map_cons, ih (n / 10) (by omega) (by omega)]
      simp

theorem digitsReversed_ne_nil (n : ℕ) : digitsReversed n ≠ [] := by
  rw [digitsReversed]
  split <;> simp

theorem digits_ne_nil (n : ℕ) : digits n ≠ [] := by
  simp [digits, digitsReversed_ne_nil]

@[simp] theorem value_reverse_digitsReversed (n : ℕ) : value (digitsReversed n).reverse = n := by
  rcases eq_or_ne n 0 with rfl | h
  · simp [digitsReversed, value]
  · rw [value_eq_ofDigits, List.reverse_reverse, map_val_digitsReversed h, Nat.ofDigits_digits]

@[simp] theorem value_digits (n : ℕ) : value (digits n) = n := value_reverse_digitsReversed n

theorem length_digitsReversed {n : ℕ} (h : n ≠ 0) :
    (digitsReversed n).length = (Nat.digits 10 n).length := by
  rw [← map_val_digitsReversed h, List.length_map]

theorem length_digits {n : ℕ} (h : n ≠ 0) : (digits n).length = (Nat.digits 10 n).length := by
  rw [digits, List.length_reverse, length_digitsReversed h]

theorem lt_pow_length_digits {n : ℕ} (h : n ≠ 0) : n < 10 ^ (digits n).length := by
  rw [length_digits h]
  exact Nat.lt_base_pow_length_digits (by decide)

theorem pow_length_digits_le {n : ℕ} (h : n ≠ 0) : 10 ^ (digits n).length ≤ 10 * n := by
  rw [length_digits h]
  exact Nat.base_pow_length_digits_le 10 n (by decide) h

/-- The first digit is not zero, unless the number is. -/
theorem head?_digits_ne_zero {n : ℕ} (h : n ≠ 0) : (digits n).head? ≠ some .zero := by
  intro hzero
  rw [digits, List.head?_reverse, List.getLast?_eq_some_iff] at hzero
  obtain ⟨init, hinit⟩ := hzero
  have hlast := Nat.getLast_digit_ne_zero 10 h
  simp only [← map_val_digitsReversed h, hinit, List.map_append] at hlast
  simp [Digit.zero] at hlast

end Qubo.Decimal

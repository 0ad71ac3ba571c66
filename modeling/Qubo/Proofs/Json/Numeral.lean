import Mathlib.Tactic
import Qubo.Json.Reader
import Qubo.Json.Writer
import Qubo.Proofs.Decimal.Digits

/-! Numerals as they are written: which of them the reader takes, and that it takes them
unchanged. -/
namespace Qubo.Json
open Decimal

/-- The numerals of the grammar: a zero stands in front only if it stands alone, and an exponent
has digits. -/
structure Numeral.WellFormed (n : Numeral) : Prop where
  whole_ne_nil : n.whole ≠ []
  leading : n.whole.head? = some .zero → n.whole.tail = []
  exponent : ∀ e, n.exponent = some e → e.digits ≠ []

/-- The characters that a numeral may go on with. -/
def continues (c : Char) : Bool :=
  (Digit.ofChar? c).isSome || c == '.' || c == 'e' || c == 'E'

/-- Text at which a numeral before it ends. -/
def Ends (rest : List Char) : Prop := ∀ c, rest.head? = some c → continues c = false

@[simp] theorem ends_nil : Ends [] := by
  intro c h
  cases h

@[simp] theorem ends_cons {c : Char} {cs : List Char} : Ends (c :: cs) ↔ continues c = false := by
  constructor
  · intro h
    exact h c rfl
  · rintro h _ ⟨⟩
    exact h

section Digits
variable {ds : List Digit} {rest : List Char}

theorem takeDigits_text (h : ∀ c, rest.head? = some c → Digit.ofChar? c = none) :
    takeDigits (text ds ++ rest) = (ds, rest) := by
  induction ds with
  | nil =>
    cases rest with
    | nil => rfl
    | cons c rest => simp [text, takeDigits, h c rfl]
  | cons d ds ih =>
    simp only [text] at ih
    simp [text, takeDigits, ih]

theorem readDigits_text (hds : ds ≠ []) (h : ∀ c, rest.head? = some c → Digit.ofChar? c = none) :
    readDigits (text ds ++ rest) = some (ds, rest) := by
  rw [readDigits, takeDigits_text h]
  cases ds with
  | nil => cases hds rfl
  | cons d ds => rfl

theorem readWhole_text (hds : ds ≠ []) (hlead : ds.head? = some .zero → ds.tail = [])
    (h : ∀ c, rest.head? = some c → Digit.ofChar? c = none) :
    readWhole (text ds ++ rest) = some (ds, rest) := by
  rw [readWhole, readDigits_text hds h]
  cases ds with
  | nil => cases hds rfl
  | cons d ds =>
    by_cases hd : d = .zero
    · obtain rfl : ds = [] := hlead (by rw [hd]; rfl)
      simp
    · simp [hd]

end Digits

def fractionChars (ds : List Digit) : List Char := if ds.isEmpty then [] else '.' :: text ds

def exponentChars : Option Exponent → List Char
  | none => []
  | some ⟨.bare, ds⟩ => 'e' :: text ds
  | some ⟨.plus, ds⟩ => 'e' :: '+' :: text ds
  | some ⟨.minus, ds⟩ => 'e' :: '-' :: text ds

theorem numeralChars_eq (n : Numeral) : numeralChars n = (if n.negative then ['-'] else []) ++
    (text n.whole ++ (fractionChars n.fraction ++ exponentChars n.exponent)) := by
  simp only [numeralChars, List.append_assoc]
  rfl

theorem ofChar?_of_not_continues {c : Char} (h : continues c = false) : Digit.ofChar? c = none := by
  simp only [continues, Bool.or_eq_false_iff] at h
  simpa using h.1.1.1

theorem head?_exponentChars {exponent : Option Exponent} {rest : List Char} (hrest : Ends rest)
    {c : Char} (h : (exponentChars exponent ++ rest).head? = some c) :
    Digit.ofChar? c = none ∧ c ≠ '.' := by
  rcases exponent with _ | ⟨_ | _ | _, ds⟩
  case none =>
    have hc := hrest c h
    refine ⟨ofChar?_of_not_continues hc, ?_⟩
    rintro rfl
    cases hc
  all_goals
    obtain rfl := Option.some.inj h
    decide

theorem head?_fractionChars {ds : List Digit} {exponent : Option Exponent} {rest : List Char}
    (hrest : Ends rest) {c : Char}
    (h : (fractionChars ds ++ (exponentChars exponent ++ rest)).head? = some c) :
    Digit.ofChar? c = none := by
  rw [fractionChars] at h
  split at h
  · exact (head?_exponentChars hrest h).1
  · obtain rfl := Option.some.inj h
    decide

theorem readFraction_chars {ds : List Digit} {exponent : Option Exponent} {rest : List Char}
    (hrest : Ends rest) : readFraction (fractionChars ds ++ (exponentChars exponent ++ rest)) =
      some (ds, exponentChars exponent ++ rest) := by
  cases ds with
  | nil =>
    show readFraction (exponentChars exponent ++ rest) = _
    cases hcs : exponentChars exponent ++ rest with
    | nil => rfl
    | cons c cs =>
      have hne := (head?_exponentChars hrest (congrArg List.head? hcs)).2
      rw [readFraction]
      rintro _ ⟨⟩
      exact hne rfl
  | cons d ds =>
    exact readDigits_text (List.cons_ne_nil d ds) fun c hc => (head?_exponentChars hrest hc).1

theorem toChar_ne (d : Digit) : d.toChar ≠ '-' ∧ d.toChar ≠ '+' := by
  decide +revert

theorem readExponent_chars {exponent : Option Exponent} {rest : List Char} (hrest : Ends rest)
    (h : ∀ e, exponent = some e → e.digits ≠ []) :
    readExponent (exponentChars exponent ++ rest) = some (exponent, rest) := by
  have hdigits {ds : List Digit} (hds : ds ≠ []) : readDigits (text ds ++ rest) = some (ds, rest) :=
    readDigits_text hds fun c hc => ofChar?_of_not_continues (hrest c hc)
  rcases exponent with _ | ⟨_ | _ | _, ds⟩
  case none =>
    cases rest with
    | nil => rfl
    | cons c rest =>
      have hc := ends_cons.mp hrest
      show readExponent (c :: rest) = _
      rw [readExponent]
      all_goals
        rintro _ ⟨⟩
        cases hc
  case some.bare =>
    cases ds with
    | nil => cases h _ rfl rfl
    | cons d ds =>
      obtain ⟨hminus, hplus⟩ := toChar_ne d
      have hsign : readExponentSign (text (d :: ds) ++ rest) =
          readExponentDigits .bare (text (d :: ds) ++ rest) := by
        rw [readExponentSign]
        · intro _ heq
          exact hplus (List.cons.inj heq).1
        · intro _ heq
          exact hminus (List.cons.inj heq).1
      show readExponentSign (text (d :: ds) ++ rest) = _
      rw [hsign, readExponentDigits, hdigits (List.cons_ne_nil d ds)]
      rfl
  case some.plus =>
    show readExponentDigits .plus (text ds ++ rest) = _
    rw [readExponentDigits, hdigits (h _ rfl)]
    rfl
  case some.minus =>
    show readExponentDigits .minus (text ds ++ rest) = _
    rw [readExponentDigits, hdigits (h _ rfl)]
    rfl

theorem readUnsigned_chars {n : Numeral} (h : n.WellFormed) {rest : List Char} (hrest : Ends rest) :
    readUnsigned n.negative
      (text n.whole ++ (fractionChars n.fraction ++ (exponentChars n.exponent ++ rest))) =
        some (n, rest) := by
  rw [readUnsigned, readWhole_text h.whole_ne_nil h.leading fun c hc => head?_fractionChars hrest hc]
  simp only [Option.bind_eq_bind, Option.bind_some, readFraction_chars hrest,
    readExponent_chars hrest h.exponent]
  rfl

/-- A written numeral is read back as it is, whatever follows at which it ends. -/
theorem readNumeral_chars {n : Numeral} (h : n.WellFormed) {rest : List Char} (hrest : Ends rest) :
    readNumeral (numeralChars n ++ rest) = some (n, rest) := by
  have hread := readUnsigned_chars h hrest
  rw [numeralChars_eq]
  simp only [List.append_assoc]
  obtain ⟨negative, whole, fraction, exponent⟩ := n
  cases negative with
  | true => exact hread
  | false =>
    cases whole with
    | nil => cases h.whole_ne_nil rfl
    | cons d whole =>
      rw [← hread]
      show readNumeral (d.toChar :: _) = _
      rw [readNumeral]
      · rfl
      · intro _ heq
        exact (toChar_ne d).1 (List.cons.inj heq).1

/-- A written numeral begins with a minus sign or a digit. -/
theorem numeralChars_eq_cons {n : Numeral} (h : n.WellFormed) :
    ∃ c cs, numeralChars n = c :: cs ∧ (c = '-' ∨ ∃ d, c = Digit.toChar d) := by
  rw [numeralChars_eq]
  obtain ⟨negative, whole, fraction, exponent⟩ := n
  cases negative with
  | true => exact ⟨'-', _, rfl, .inl rfl⟩
  | false =>
    cases whole with
    | nil => cases h.whole_ne_nil rfl
    | cons d whole => exact ⟨d.toChar, _, rfl, .inr ⟨d, rfl⟩⟩

namespace Numeral

theorem wellFormed_ofNat (n : ℕ) : (ofNat n).WellFormed := by
  constructor
  case whole_ne_nil => exact digits_ne_nil n
  case leading =>
    intro hzero
    rcases eq_or_ne n 0 with rfl | hn
    · simp [ofNat, digits, digitsReversed]
    · cases head?_digits_ne_zero hn hzero
  case exponent => rintro e ⟨⟩

theorem wellFormed_ofScientific {negative : Bool} {ds : List Digit} {e : ℤ} (hds : ds ≠ [])
    (hlead : ds.head? = some .zero → ds = [.zero] ∧ e = 0) :
    (ofScientific negative ds e).WellFormed := by
  obtain ⟨d, ds, rfl⟩ := List.exists_cons_of_ne_nil hds
  rw [ofScientific]
  split_ifs
  case pos hnear hsign =>
    constructor
    case whole_ne_nil => simp
    case leading =>
      intro hzero
      obtain ⟨heq, rfl⟩ := hlead (by simpa using hzero)
      simp [heq]
    case exponent => rintro _ ⟨⟩
  case neg hnear hsign =>
    constructor
    case whole_ne_nil => simp
    case leading => simp
    case exponent => rintro _ ⟨⟩
  all_goals
    constructor
    case whole_ne_nil => simp
    case leading => simp
    case exponent =>
      rintro _ ⟨⟩
      exact digits_ne_nil _

end Numeral

end Qubo.Json

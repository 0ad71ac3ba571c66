import Mathlib.Tactic
import Qubo.Json.Reader

/-! A text is at least as long as the arrays and objects read from it have items and fields, all
taken together: each is followed by a comma or a bracket of its own. -/
namespace Qubo.Json
open Decimal

mutual
/-- The items and fields inside a value, at all levels. -/
def weight : Json → ℕ
  | .array items => itemsWeight items
  | .object fields => fieldsWeight fields
  | _ => 0
def itemsWeight : List Json → ℕ
  | [] => 0
  | v :: vs => 1 + weight v + itemsWeight vs
def fieldsWeight : List (String × Json) → ℕ
  | [] => 0
  | (_, v) :: fs => 1 + weight v + fieldsWeight fs
end

theorem fieldsWeight_eq (fields : List (String × Json)) :
    fieldsWeight fields = itemsWeight (fields.map (·.2)) := by
  induction fields with
  | nil => rfl
  | cons f fs ih => rw [List.map_cons, fieldsWeight, itemsWeight, ih]

theorem itemsWeight_eq_sum (items : List Json) :
    itemsWeight items = (items.map fun v => 1 + weight v).sum := by
  induction items with
  | nil => rfl
  | cons v vs ih => rw [itemsWeight, ih, List.map_cons, List.sum_cons]

theorem length_le_itemsWeight (items : List Json) : items.length ≤ itemsWeight items := by
  induction items with
  | nil => exact le_rfl
  | cons v vs ih =>
    rw [List.length_cons, itemsWeight]
    omega

theorem weight_lt_of_mem {items : List Json} {v : Json} (h : v ∈ items) :
    weight v < itemsWeight items := by
  rw [itemsWeight_eq_sum]
  have := List.single_le_sum (by simp) _ (List.mem_map_of_mem (f := fun v => 1 + weight v) h)
  omega

theorem itemsWeight_le_of_sublist {items items' : List Json} (h : items.Sublist items') :
    itemsWeight items ≤ itemsWeight items' := by
  rw [itemsWeight_eq_sum, itemsWeight_eq_sum]
  exact (h.map _).sum_le_sum fun _ _ => Nat.zero_le _

/-! What a reader leaves is no longer than what it was given. -/

section Rest
variable {cs rest : List Char}

theorem length_skipBlank_le (cs : List Char) : (skipBlank cs).length ≤ cs.length :=
  (List.dropWhile_suffix _).length_le

theorem length_takeDigits_le (cs : List Char) : (takeDigits cs).2.length ≤ cs.length := by
  induction cs with
  | nil => exact le_rfl
  | cons c cs ih =>
    rw [takeDigits]
    split
    · exact le_rfl
    · exact ih.trans (Nat.le_succ _)

theorem length_of_readDigits {ds : List Digit} (h : readDigits cs = some (ds, rest)) :
    rest.length ≤ cs.length := by
  have hlength := length_takeDigits_le cs
  rw [readDigits] at h
  split at h
  · cases h
  · rwa [Option.some.inj h] at hlength

theorem length_of_readWhole {ds : List Digit} (h : readWhole cs = some (ds, rest)) :
    rest.length ≤ cs.length := by
  rw [readWhole] at h
  split at h
  case h_1 hread =>
    split_ifs at h
    obtain ⟨-, rfl⟩ := Prod.mk.inj (Option.some.inj h)
    exact length_of_readDigits hread
  case h_2 => cases h

theorem length_of_readFraction {ds : List Digit} (h : readFraction cs = some (ds, rest)) :
    rest.length ≤ cs.length := by
  rw [readFraction.eq_def] at h
  split at h
  · exact (length_of_readDigits h).trans (Nat.le_succ _)
  · obtain ⟨-, rfl⟩ := Prod.mk.inj (Option.some.inj h)
    exact le_rfl

theorem length_of_readExponentDigits {sign : ExponentSign} {e : Option Exponent}
    (h : readExponentDigits sign cs = some (e, rest)) : rest.length ≤ cs.length := by
  obtain ⟨⟨ds, rest'⟩, hread, heq⟩ := Option.map_eq_some_iff.mp h
  obtain ⟨-, rfl⟩ := Prod.mk.inj heq
  exact length_of_readDigits hread

theorem length_of_readExponentSign {e : Option Exponent}
    (h : readExponentSign cs = some (e, rest)) : rest.length ≤ cs.length := by
  rw [readExponentSign.eq_def] at h
  split at h
  · exact (length_of_readExponentDigits h).trans (Nat.le_succ _)
  · exact (length_of_readExponentDigits h).trans (Nat.le_succ _)
  · exact length_of_readExponentDigits h

theorem length_of_readExponent {e : Option Exponent} (h : readExponent cs = some (e, rest)) :
    rest.length ≤ cs.length := by
  rw [readExponent.eq_def] at h
  split at h
  · exact (length_of_readExponentSign h).trans (Nat.le_succ _)
  · exact (length_of_readExponentSign h).trans (Nat.le_succ _)
  · obtain ⟨-, rfl⟩ := Prod.mk.inj (Option.some.inj h)
    exact le_rfl

theorem length_of_readUnsigned {negative : Bool} {n : Numeral}
    (h : readUnsigned negative cs = some (n, rest)) : rest.length ≤ cs.length := by
  simp only [readUnsigned, Option.bind_eq_bind, Option.bind_eq_some_iff, Prod.exists] at h
  obtain ⟨whole, cs₁, hwhole, fraction, cs₂, hfraction, exponent, cs₃, hexponent, h⟩ := h
  obtain ⟨-, rfl⟩ := Prod.mk.inj (Option.some.inj h)
  exact (length_of_readExponent hexponent).trans
    ((length_of_readFraction hfraction).trans (length_of_readWhole hwhole))

theorem length_of_readNumeral {n : Numeral} (h : readNumeral cs = some (n, rest)) :
    rest.length ≤ cs.length := by
  rw [readNumeral.eq_def] at h
  split at h
  · exact (length_of_readUnsigned h).trans (Nat.le_succ _)
  · exact length_of_readUnsigned h

theorem length_of_readPieces {ps : List Piece} (h : readPieces cs = some (ps, rest)) :
    rest.length ≤ cs.length := by
  induction cs using readPieces.induct generalizing ps with
  | case1 => cases h
  | case2 cs =>
    obtain ⟨-, rfl⟩ := Prod.mk.inj (Option.some.inj h)
    exact Nat.le_succ _
  | case3 a b c d cs ih =>
    simp only [readPieces, Option.bind_eq_bind, Option.bind_eq_some_iff, Prod.exists] at h
    obtain ⟨u, -, ps', rest', hread, heq⟩ := h
    obtain ⟨-, rfl⟩ := Prod.mk.inj (Option.some.inj heq)
    have := ih hread
    simp only [List.length_cons]
    omega
  | case4 c cs hunit ih =>
    rw [readPieces] at h
    · simp only [Option.bind_eq_bind, Option.bind_eq_some_iff, Prod.exists] at h
      obtain ⟨e, -, ps', rest', hread, heq⟩ := h
      obtain ⟨-, rfl⟩ := Prod.mk.inj (Option.some.inj heq)
      have := ih hread
      simp only [List.length_cons]
      omega
    · exact hunit
  | case5 c cs hquote hunit hescape hcontrol =>
    rw [readPieces, if_pos hcontrol] at h
    · cases h
    all_goals assumption
  | case6 c cs hquote hunit hescape hcontrol ih =>
    rw [readPieces, if_neg hcontrol] at h
    · simp only [Option.bind_eq_bind, Option.bind_eq_some_iff, Prod.exists] at h
      obtain ⟨ps', rest', hread, heq⟩ := h
      obtain ⟨-, rfl⟩ := Prod.mk.inj (Option.some.inj heq)
      exact (ih hread).trans (Nat.le_succ _)
    all_goals assumption

theorem length_of_readString {s : Option String} (h : readString cs = some (s, rest)) :
    rest.length ≤ cs.length := by
  obtain ⟨⟨ps, rest'⟩, hread, heq⟩ := Option.map_eq_some_iff.mp h
  obtain ⟨-, rfl⟩ := Prod.mk.inj heq
  exact length_of_readPieces hread

end Rest

theorem weight_heldAt_le (levels : ℕ) (j : Json) : weight (heldAt levels j) ≤ weight j := by
  rw [heldAt]
  split
  · exact Nat.zero_le _
  · exact le_rfl

theorem weight_ofNamed_le (fields : List (Option String × Json)) :
    weight (ofNamed fields) ≤ itemsWeight (fields.map (·.2)) := by
  rw [ofNamed]
  split
  case h_1 fs hfs =>
    have hvalues : fs.map (·.2) = fields.map (·.2) := by
      induction fields generalizing fs with
      | nil => cases hfs; rfl
      | cons f fields ih =>
        rw [List.mapM_cons] at hfs
        simp only [Option.bind_eq_bind, Option.bind_eq_some_iff] at hfs
        obtain ⟨f', hf, fs', hrest, heq⟩ := hfs
        obtain ⟨name, -, rfl⟩ := Option.map_eq_some_iff.mp hf
        obtain rfl := Option.some.inj heq
        rw [List.map_cons, List.map_cons, ih _ hrest]
    rw [weight, fieldsWeight_eq, hvalues]
  case h_2 => exact Nat.zero_le _

/-- The bound for all that is read with a number of calls. -/
structure Bounded (n : ℕ) : Prop where
  value {levels cs j rest} : readValue n levels cs = some (j, rest) →
    weight j + rest.length ≤ cs.length
  items {levels cs vs rest} : readItems n levels cs = some (vs, rest) →
    itemsWeight vs + rest.length ≤ cs.length
  fields {levels cs fs rest} : readFields n levels cs = some (fs, rest) →
    itemsWeight (fs.map (·.2)) + rest.length ≤ cs.length

theorem Bounded.zero : Bounded 0 := by
  constructor
  all_goals
    intro _ _ _ _ h
    cases h

section Step
variable {n levels : ℕ} {cs rest : List Char}

theorem Bounded.value_succ (hn : Bounded n) {j : Json}
    (h : readValue (n + 1) levels cs = some (j, rest)) : weight j + rest.length ≤ cs.length := by
  have hskip := length_skipBlank_le cs
  rw [readValue] at h
  split at h
  case h_1 heq | h_2 heq | h_3 heq =>
    obtain ⟨rfl, rfl⟩ := Prod.mk.inj (Option.some.inj h)
    rw [heq] at hskip
    simp only [List.length_cons] at hskip
    show 0 + _ ≤ _
    omega
  case h_4 text heq =>
    rw [heq, List.length_cons] at hskip
    obtain ⟨⟨s, rest'⟩, hread, heq⟩ := Option.bind_eq_some_iff.mp h
    obtain ⟨rfl, rfl⟩ := Prod.mk.inj (Option.some.inj heq)
    have hrest := length_of_readString hread
    have hzero : weight (s.elim .unreadable .string) = 0 := by cases s <;> rfl
    omega
  case h_5 text heq =>
    rw [heq, List.length_cons] at hskip
    have hskip' := length_skipBlank_le text
    split at h
    case h_1 heq =>
      obtain ⟨rfl, rfl⟩ := Prod.mk.inj (Option.some.inj h)
      have hheld := weight_heldAt_le levels (.array [])
      rw [weight, itemsWeight] at hheld
      rw [heq, List.length_cons] at hskip'
      omega
    case h_2 =>
      obtain ⟨⟨vs, rest'⟩, hread, heq⟩ := Option.bind_eq_some_iff.mp h
      obtain ⟨rfl, rfl⟩ := Prod.mk.inj (Option.some.inj heq)
      have hheld := weight_heldAt_le levels (.array vs)
      have hitems := hn.items hread
      rw [weight] at hheld
      omega
  case h_6 text heq =>
    rw [heq, List.length_cons] at hskip
    have hskip' := length_skipBlank_le text
    split at h
    case h_1 heq =>
      obtain ⟨rfl, rfl⟩ := Prod.mk.inj (Option.some.inj h)
      have hheld := weight_heldAt_le levels (.object [])
      rw [weight, fieldsWeight] at hheld
      rw [heq, List.length_cons] at hskip'
      omega
    case h_2 =>
      obtain ⟨⟨fs, rest'⟩, hread, heq⟩ := Option.bind_eq_some_iff.mp h
      obtain ⟨rfl, rfl⟩ := Prod.mk.inj (Option.some.inj heq)
      have hheld := weight_heldAt_le levels (ofNamed fs)
      have hnamed := weight_ofNamed_le fs
      have hfields := hn.fields hread
      omega
  case h_7 =>
    obtain ⟨⟨m, rest'⟩, hread, heq⟩ := Option.bind_eq_some_iff.mp h
    obtain ⟨rfl, rfl⟩ := Prod.mk.inj (Option.some.inj heq)
    have hrest := length_of_readNumeral hread
    show 0 + _ ≤ _
    omega

theorem Bounded.items_succ (hn : Bounded n) {vs : List Json}
    (h : readItems (n + 1) levels cs = some (vs, rest)) :
    itemsWeight vs + rest.length ≤ cs.length := by
  rw [readItems] at h
  obtain ⟨⟨v, after⟩, hread, h⟩ := Option.bind_eq_some_iff.mp h
  have hvalue := hn.value hread
  have hskip := length_skipBlank_le after
  dsimp only at h
  split at h
  case h_1 heq =>
    rw [heq, List.length_cons] at hskip
    obtain ⟨⟨vs', rest'⟩, hread, heq⟩ := Option.bind_eq_some_iff.mp h
    obtain ⟨rfl, rfl⟩ := Prod.mk.inj (Option.some.inj heq)
    have hitems := hn.items hread
    rw [itemsWeight]
    dsimp only
    omega
  case h_2 heq =>
    rw [heq, List.length_cons] at hskip
    obtain ⟨rfl, rfl⟩ := Prod.mk.inj (Option.some.inj h)
    rw [itemsWeight, itemsWeight]
    omega
  case h_3 => cases h

theorem Bounded.fields_succ (hn : Bounded n) {fs : List (Option String × Json)}
    (h : readFields (n + 1) levels cs = some (fs, rest)) :
    itemsWeight (fs.map (·.2)) + rest.length ≤ cs.length := by
  have hskip := length_skipBlank_le cs
  rw [readFields] at h
  split at h
  case h_2 => cases h
  case h_1 heq =>
    rw [heq, List.length_cons] at hskip
    obtain ⟨⟨name, colon⟩, hread, h⟩ := Option.bind_eq_some_iff.mp h
    have hname := length_of_readString hread
    have hcolon := length_skipBlank_le colon
    dsimp only at h
    split at h
    case h_2 => cases h
    case h_1 heq =>
      rw [heq, List.length_cons] at hcolon
      obtain ⟨⟨v, after⟩, hread, h⟩ := Option.bind_eq_some_iff.mp h
      have hvalue := hn.value hread
      have hafter := length_skipBlank_le after
      dsimp only at h
      split at h
      case h_1 heq =>
        rw [heq, List.length_cons] at hafter
        obtain ⟨⟨fs', rest'⟩, hread, heq⟩ := Option.bind_eq_some_iff.mp h
        obtain ⟨rfl, rfl⟩ := Prod.mk.inj (Option.some.inj heq)
        have hfields := hn.fields hread
        rw [List.map_cons, itemsWeight]
        dsimp only
        omega
      case h_2 heq =>
        rw [heq, List.length_cons] at hafter
        obtain ⟨rfl, rfl⟩ := Prod.mk.inj (Option.some.inj h)
        rw [List.map_cons, List.map_nil, itemsWeight, itemsWeight]
        dsimp only
        omega
      case h_3 => cases h

end Step

theorem bounded (n : ℕ) : Bounded n := by
  induction n with
  | zero => exact .zero
  | succ n ih =>
    constructor
    case value => exact ih.value_succ
    case items => exact ih.items_succ
    case fields => exact ih.fields_succ

/-- What is read at the start of a text holds no more items and fields than the text has
characters. -/
theorem weight_le_of_readStart {cs rest : List Char} {j : Json}
    (h : readStart cs = some (j, rest)) : weight j ≤ cs.length := by
  have := (bounded _).value h
  omega

end Qubo.Json

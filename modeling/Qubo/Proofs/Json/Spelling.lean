import Mathlib.Tactic
import Qubo.Proofs.Json.Numeral

/-! The texts a value may be written as, and that the reader gives the value back for each of
them. Both writers produce such texts. -/
namespace Qubo.Json
open Decimal

/-! Strings -/

/-- The piece that a written character is read as. -/
def pieceOf (c : Char) : Piece :=
  if c.toNat < 0x20 ∧ c ∉ ['\x08', '\x0c', '\n', '\r', '\t'] then .unit c.toNat else .char c

theorem unit?_hexChar {n : ℕ} (h : n < 0x20) :
    unit? '0' '0' (hexChar (n / 16)) (hexChar (n % 16)) = some n := by
  decide +revert

theorem readPieces_escape {k c : Char} (h : escape? k = some c) (cs : List Char) :
    readPieces ('\\' :: k :: cs) =
      (readPieces cs).map fun (ps, rest) => (.char c :: ps, rest) := by
  rw [readPieces, h]
  · cases readPieces cs <;> rfl
  · rintro _ _ _ _ _ rfl
    cases h

theorem readPieces_plain {c : Char} (hquote : c ≠ '"') (hslash : c ≠ '\\')
    (hcontrol : ¬ c.toNat < 0x20) (cs : List Char) :
    readPieces (c :: cs) = (readPieces cs).map fun (ps, rest) => (.char c :: ps, rest) := by
  rw [readPieces, if_neg hcontrol]
  · cases readPieces cs <;> rfl
  · exact hquote
  · rintro _ _ _ _ _ rfl
    cases hslash rfl
  · rintro _ _ rfl
    cases hslash rfl

theorem readPieces_unit {a b c d : Char} {u : ℕ} (h : unit? a b c d = some u) (cs : List Char) :
    readPieces ('\\' :: 'u' :: a :: b :: c :: d :: cs) =
      (readPieces cs).map fun (ps, rest) => (.unit u :: ps, rest) := by
  rw [readPieces, h]
  cases readPieces cs <;> rfl

theorem readPieces_escapeChar (c : Char) (cs : List Char) : readPieces (escapeChar c ++ cs) =
    (readPieces cs).map fun (ps, rest) => (pieceOf c :: ps, rest) := by
  rw [escapeChar]
  split_ifs with h₁ h₂ h₃ h₄ h₅ h₆ h₇ hcontrol
  case pos => subst h₁; exact readPieces_escape rfl cs
  case pos => subst h₂; exact readPieces_escape rfl cs
  case pos => subst h₃; exact readPieces_escape rfl cs
  case pos => subst h₄; exact readPieces_escape rfl cs
  case pos => subst h₅; exact readPieces_escape rfl cs
  case pos => subst h₆; exact readPieces_escape rfl cs
  case pos => subst h₇; exact readPieces_escape rfl cs
  case pos =>
    have hpiece : pieceOf c = .unit c.toNat := if_pos ⟨hcontrol, by simp [h₃, h₄, h₅, h₆, h₇]⟩
    rw [hpiece]
    exact readPieces_unit (unit?_hexChar hcontrol) cs
  case neg =>
    have hpiece : pieceOf c = .char c := if_neg fun h => hcontrol h.1
    rw [hpiece]
    exact readPieces_plain h₁ h₂ hcontrol cs

theorem readPieces_stringChars (s rest : List Char) :
    readPieces (s.flatMap escapeChar ++ '"' :: rest) = some (s.map pieceOf, rest) := by
  induction s with
  | nil => rfl
  | cons c s ih =>
    rw [List.flatMap_cons, List.append_assoc, readPieces_escapeChar, ih]
    rfl

theorem joinPieces_unit {u : ℕ} (h : u < 0xd800) (ps : List Piece) :
    joinPieces (.unit u :: ps) = (joinPieces ps).map (Char.ofNat u :: ·) := by
  have hhigh : isHighSurrogate u = false := by simp [isHighSurrogate]; omega
  have hlow : isLowSurrogate u = false := by simp [isLowSurrogate]; omega
  rcases ps with _ | ⟨_ | _, ps⟩ <;> simp [joinPieces, hhigh, hlow]

theorem joinPieces_map_pieceOf (s : List Char) : joinPieces (s.map pieceOf) = some s := by
  induction s with
  | nil => rfl
  | cons c s ih =>
    rw [List.map_cons, pieceOf]
    split
    case isTrue h =>
      rw [joinPieces_unit (by omega), ih, Option.map_some, Char.ofNat_toNat]
    case isFalse =>
      rw [joinPieces, ih]
      rfl

theorem readString_stringChars (s : String) (rest : List Char) :
    readString (s.toList.flatMap escapeChar ++ '"' :: rest) = some (some s, rest) := by
  rw [readString, readPieces_stringChars]
  simp [joinPieces_map_pieceOf]

/-! The grammar -/

/-- What there are texts of: a value, the rest of an array after an item, a named value, and the
rest of an object after one of these. -/
inductive Part where
  | value (j : Json)
  | items (vs : List Json)
  | entry (name : String) (v : Json)
  | fields (fs : List (String × Json))

/-- The texts of a part within a number of levels of nesting. Blanks may stand before each. -/
inductive Spells : ℕ → Part → List Char → Prop
  | pad {levels part c cs} (hc : isBlank c = true) (h : Spells levels part cs) :
      Spells levels part (c :: cs)
  | null {levels} : Spells levels (.value .null) (compactChars .null)
  | bool {levels} (b : Bool) : Spells levels (.value (.bool b)) (compactChars (.bool b))
  | number {levels n} (h : Numeral.WellFormed n) :
      Spells levels (.value (.number n)) (numeralChars n)
  | string {levels} (s : String) : Spells levels (.value (.string s)) (stringChars s)
  | emptyArray {levels ds} (h : Spells levels (.items []) ds) :
      Spells (levels + 1) (.value (.array [])) ('[' :: ds)
  | array {levels v vs cs ds} (hv : Spells levels (.value v) cs) (h : Spells levels (.items vs) ds) :
      Spells (levels + 1) (.value (.array (v :: vs))) ('[' :: (cs ++ ds))
  | lastItem {levels} : Spells levels (.items []) [']']
  | nextItem {levels v vs cs ds} (hv : Spells levels (.value v) cs)
      (h : Spells levels (.items vs) ds) : Spells levels (.items (v :: vs)) (',' :: (cs ++ ds))
  | emptyObject {levels ds} (h : Spells levels (.fields []) ds) :
      Spells (levels + 1) (.value (.object [])) ('\x7b' :: ds)
  | object {levels name v fs cs ds} (hv : Spells levels (.entry name v) cs)
      (h : Spells levels (.fields fs) ds) :
      Spells (levels + 1) (.value (.object ((name, v) :: fs))) ('\x7b' :: (cs ++ ds))
  | entry {levels v cs} (name : String) (h : Spells levels (.value v) cs) :
      Spells levels (.entry name v) (stringChars name ++ ':' :: cs)
  | lastField {levels} : Spells levels (.fields []) ['\x7d']
  | nextField {levels name v fs cs ds} (hv : Spells levels (.entry name v) cs)
      (h : Spells levels (.fields fs) ds) :
      Spells levels (.fields ((name, v) :: fs)) (',' :: (cs ++ ds))

/-! The reader, part by part -/

section Reader
variable {n levels : ℕ} {cs rest : List Char}

theorem skipBlank_of_isBlank {c : Char} (h : isBlank c = true) (cs : List Char) :
    skipBlank (c :: cs) = skipBlank cs := by
  simp [skipBlank, h]

theorem skipBlank_of_not {c : Char} (h : isBlank c = false) (cs : List Char) :
    skipBlank (c :: cs) = c :: cs := by
  simp [skipBlank, h]

theorem skipBlank_skipBlank (cs : List Char) : skipBlank (skipBlank cs) = skipBlank cs := by
  induction cs with
  | nil => rfl
  | cons c cs ih =>
    cases h : isBlank c with
    | true => rwa [skipBlank_of_isBlank h]
    | false => rw [skipBlank_of_not h, skipBlank_of_not h]

theorem readValue_skipBlank (n levels : ℕ) (cs : List Char) :
    readValue n levels (skipBlank cs) = readValue n levels cs := by
  cases n with
  | zero => rfl
  | succ n => rw [readValue, readValue, skipBlank_skipBlank]

theorem readItems_skipBlank (n levels : ℕ) (cs : List Char) :
    readItems n levels (skipBlank cs) = readItems n levels cs := by
  cases n with
  | zero => rfl
  | succ n => rw [readItems, readItems, readValue_skipBlank]

theorem readFields_skipBlank (n levels : ℕ) (cs : List Char) :
    readFields n levels (skipBlank cs) = readFields n levels cs := by
  cases n with
  | zero => rfl
  | succ n => rw [readFields, readFields, skipBlank_skipBlank]

theorem readValue_quote_cons (n levels : ℕ) (cs : List Char) :
    readValue (n + 1) levels ('"' :: cs) = do
      let (s, rest) ← readString cs
      return (s.elim .unreadable .string, rest) := rfl

theorem readValue_array_cons (n levels : ℕ) (cs : List Char) :
    readValue (n + 1) levels ('[' :: cs) =
      match skipBlank cs with
      | ']' :: rest => some (heldAt levels (.array []), rest)
      | rest => do
        let (items, rest) ← readItems n (levels - 1) rest
        return (heldAt levels (.array items), rest) := rfl

theorem readValue_object_cons (n levels : ℕ) (cs : List Char) :
    readValue (n + 1) levels ('\x7b' :: cs) =
      match skipBlank cs with
      | '\x7d' :: rest => some (heldAt levels (.object []), rest)
      | rest => do
        let (fields, rest) ← readFields n (levels - 1) rest
        return (heldAt levels (ofNamed fields), rest) := rfl

theorem readValue_array (h : ∀ body, skipBlank cs ≠ ']' :: body) :
    readValue (n + 1) levels ('[' :: cs) = (readItems n (levels - 1) cs).map
      fun (items, rest) => (heldAt levels (.array items), rest) := by
  rw [readValue_array_cons, ← readItems_skipBlank]
  split
  case h_1 hclose => cases h _ hclose
  case h_2 => cases readItems n (levels - 1) (skipBlank cs) <;> rfl

theorem readValue_object (h : ∀ body, skipBlank cs ≠ '\x7d' :: body) :
    readValue (n + 1) levels ('\x7b' :: cs) = (readFields n (levels - 1) cs).map
      fun (fields, rest) => (heldAt levels (ofNamed fields), rest) := by
  rw [readValue_object_cons, ← readFields_skipBlank]
  split
  case h_1 hclose => cases h _ hclose
  case h_2 => cases readFields n (levels - 1) (skipBlank cs) <;> rfl

theorem beginsNumeral {c : Char} (h : c = '-' ∨ ∃ d, c = Digit.toChar d) :
    isBlank c = false ∧ c ≠ ']' := by
  rcases h with rfl | ⟨d, rfl⟩
  · decide
  · decide +revert

theorem readValue_numeral {c : Char} (h : c = '-' ∨ ∃ d, c = Digit.toChar d) :
    readValue (n + 1) levels (c :: cs) =
      (readNumeral (c :: cs)).map fun (numeral, rest) => (.number numeral, rest) := by
  have hread : readValue (n + 1) levels (c :: cs) = do
      let (numeral, rest) ← readNumeral (c :: cs)
      return (.number numeral, rest) := by
    rcases h with rfl | ⟨d, rfl⟩
    · rfl
    · fin_cases d <;> rfl
  rw [hread]
  cases readNumeral (c :: cs) <;> rfl

/-- What the reader does after an item of an array. -/
def afterItem (n levels : ℕ) (v : Json) (cs : List Char) : Option (List Json × List Char) :=
  match skipBlank cs with
  | ',' :: rest => do
    let (vs, rest) ← readItems n levels rest
    return (v :: vs, rest)
  | ']' :: rest => some ([v], rest)
  | _ => none

theorem readItems_succ (n levels : ℕ) (cs : List Char) : readItems (n + 1) levels cs =
    (readValue n levels cs).bind fun (v, rest) => afterItem n levels v rest := rfl

/-- What the reader does after a field of an object. -/
def afterField (n levels : ℕ) (name : Option String) (v : Json) (cs : List Char) :
    Option (List (Option String × Json) × List Char) :=
  match skipBlank cs with
  | ',' :: rest => do
    let (fs, rest) ← readFields n levels rest
    return ((name, v) :: fs, rest)
  | '\x7d' :: rest => some ([(name, v)], rest)
  | _ => none

/-- A text begins with a named value. -/
def StartsWith (n levels : ℕ) (cs : List Char) (name : String) (v : Json) (rest : List Char) :
    Prop :=
  ∃ quoted colon value, skipBlank cs = '"' :: quoted ∧
    readString quoted = some (some name, colon) ∧ skipBlank colon = ':' :: value ∧
    readValue n levels value = some (v, rest)

theorem StartsWith.readFields_eq {name : String} {v : Json}
    (h : StartsWith n levels cs name v rest) :
    readFields (n + 1) levels cs = afterField n levels (some name) v rest := by
  obtain ⟨quoted, colon, value, hquote, hname, hcolon, hvalue⟩ := h
  simp only [readFields, hquote, hname, hcolon, hvalue, Option.bind_eq_bind, Option.bind_some]
  rfl

theorem mapM_map_some (fs : List (String × Json)) :
    (fs.map fun f => (some f.1, f.2)).mapM
      (fun (name, v) => name.map (·, v) : Option String × Json → Option (String × Json)) =
        some fs := by
  induction fs with
  | nil => rfl
  | cons f fs ih => simp [List.mapM_cons, ih]

theorem ofNamed_map_some (fs : List (String × Json)) :
    ofNamed (fs.map fun f => (some f.1, f.2)) = .object fs := by
  rw [ofNamed, mapM_map_some]

end Reader

/-! Texts that are spelled -/

namespace Spells
variable {levels : ℕ} {cs ds rest : List Char}

theorem skipBlank_close (h : Spells levels (.items []) ds) (rest : List Char) :
    skipBlank (ds ++ rest) = ']' :: rest := by
  generalize hpart : Part.items [] = part at h
  induction h with
  | pad hc _ ih => rw [List.cons_append, skipBlank_of_isBlank hc, ih hpart]
  | lastItem => rfl
  | _ => cases hpart

theorem skipBlank_closeObject (h : Spells levels (.fields []) ds) (rest : List Char) :
    skipBlank (ds ++ rest) = '\x7d' :: rest := by
  generalize hpart : Part.fields [] = part at h
  induction h with
  | pad hc _ ih => rw [List.cons_append, skipBlank_of_isBlank hc, ih hpart]
  | lastField => rfl
  | _ => cases hpart

theorem not_continues_of_isBlank {c : Char} (h : isBlank c = true) : continues c = false := by
  simp only [isBlank, Bool.or_eq_true, beq_iff_eq] at h
  rcases h with ((rfl | rfl) | rfl) | rfl <;> rfl

/-- A numeral ends where the rest of an array follows it. -/
theorem ends_items {vs : List Json} (h : Spells levels (.items vs) ds) : Ends (ds ++ rest) := by
  cases h with
  | pad hc => exact ends_cons.mpr (not_continues_of_isBlank hc)
  | lastItem => exact ends_cons.mpr rfl
  | nextItem => exact ends_cons.mpr rfl

theorem ends_fields {fs : List (String × Json)} (h : Spells levels (.fields fs) ds) :
    Ends (ds ++ rest) := by
  cases h with
  | pad hc => exact ends_cons.mpr (not_continues_of_isBlank hc)
  | lastField => exact ends_cons.mpr rfl
  | nextField => exact ends_cons.mpr rfl

/-- No value begins like the end of an array. -/
theorem skipBlank_value_ne {j : Json} (h : Spells levels (.value j) cs) (rest body : List Char) :
    skipBlank (cs ++ rest) ≠ ']' :: body := by
  generalize hpart : Part.value j = part at h
  induction h with
  | pad hc _ ih => rw [List.cons_append, skipBlank_of_isBlank hc]; exact ih hpart
  | number hn =>
    obtain ⟨c, cs, hcs, hc⟩ := numeralChars_eq_cons hn
    obtain ⟨hblank, hne⟩ := beginsNumeral hc
    rw [hcs, List.cons_append, skipBlank_of_not hblank]
    intro heq
    exact hne (List.cons.inj heq).1
  | null => rintro ⟨⟩
  | bool b => cases b <;> rintro ⟨⟩
  | string s => rintro ⟨⟩
  | emptyArray => rintro ⟨⟩
  | array => rintro ⟨⟩
  | emptyObject => rintro ⟨⟩
  | object => rintro ⟨⟩
  | _ => cases hpart

end Spells

/-- The reader takes a text of a part for that part, whatever follows. Twice as many calls as there
are characters suffice. -/
def Accepts (levels : ℕ) : Part → List Char → Prop
  | .value j, cs => ∀ n rest, 2 * cs.length ≤ n → Ends rest →
    readValue (n + 1) levels (cs ++ rest) = some (j, rest)
  | .items vs, ds => ∀ n rest v, 2 * ds.length ≤ n →
    afterItem n levels v (ds ++ rest) = some (v :: vs, rest)
  | .entry name v, cs => ∀ n rest, 2 * cs.length ≤ n → Ends rest →
    StartsWith (n + 1) levels (cs ++ rest) name v rest
  | .fields fs, ds => ∀ n rest name v, 2 * ds.length ≤ n →
    afterField n levels name v (ds ++ rest) =
      some ((name, v) :: fs.map fun f => (some f.1, f.2), rest)

section Accepts
variable {levels : ℕ} {cs ds : List Char}

theorem Accepts.pad {part : Part} {c : Char} (hc : isBlank c = true)
    (h : Accepts levels part cs) : Accepts levels part (c :: cs) := by
  have hskip (rest : List Char) : skipBlank (c :: cs ++ rest) = skipBlank (cs ++ rest) :=
    skipBlank_of_isBlank hc _
  cases part with
  | value j =>
    intro n rest hn hrest
    rw [← h n rest (by simp at hn; omega) hrest, ← readValue_skipBlank, hskip, readValue_skipBlank]
  | items vs =>
    intro n rest v hn
    rw [← h n rest v (by simp at hn; omega), afterItem, hskip, afterItem]
  | entry name v =>
    intro n rest hn hrest
    rw [StartsWith, hskip]
    exact h n rest (by simp at hn; omega) hrest
  | fields fs =>
    intro n rest name v hn
    rw [← h n rest name v (by simp at hn; omega), afterField, hskip, afterField]

theorem Accepts.number {m : Numeral} (h : m.WellFormed) :
    Accepts levels (.value (.number m)) (numeralChars m) := by
  intro n rest _ hrest
  obtain ⟨c, cs, hcs, hc⟩ := numeralChars_eq_cons h
  have hread := readNumeral_chars h hrest
  rw [hcs, List.cons_append] at hread ⊢
  rw [readValue_numeral hc, hread]
  rfl

theorem Accepts.string (s : String) : Accepts levels (.value (.string s)) (stringChars s) := by
  intro n rest _ _
  rw [stringChars, List.cons_append, List.cons_append, List.append_assoc, List.cons_append,
    List.nil_append, readValue_quote_cons, readString_stringChars]
  rfl

/-- The items of an array: the first of them, and what follows it. -/
theorem readItems_of_accepts {v : Json} {vs : List Json} (hv : Accepts levels (.value v) cs)
    (h : Accepts levels (.items vs) ds) {n : ℕ} {rest : List Char} (hends : Ends (ds ++ rest))
    (hn : 2 * (cs.length + ds.length) < n) :
    readItems (n + 1) levels (cs ++ (ds ++ rest)) = some (v :: vs, rest) := by
  obtain ⟨m, rfl⟩ : ∃ m, n = m + 1 := ⟨n - 1, by omega⟩
  rw [readItems_succ, hv m _ (by omega) hends]
  exact h (m + 1) rest v (by omega)

theorem readFields_of_accepts {name : String} {v : Json} {fs : List (String × Json)}
    (hv : Accepts levels (.entry name v) cs) (h : Accepts levels (.fields fs) ds) {n : ℕ}
    {rest : List Char} (hends : Ends (ds ++ rest)) (hn : 2 * (cs.length + ds.length) < n) :
    readFields (n + 1) levels (cs ++ (ds ++ rest)) =
      some (((name, v) :: fs).map fun f => (some f.1, f.2), rest) := by
  obtain ⟨m, rfl⟩ : ∃ m, n = m + 1 := ⟨n - 1, by omega⟩
  rw [(hv m _ (by omega) hends).readFields_eq]
  exact h (m + 1) rest (some name) v (by omega)

theorem Accepts.array {v : Json} {vs : List Json} (hcs : Spells levels (.value v) cs)
    (hds : Spells levels (.items vs) ds) (hv : Accepts levels (.value v) cs)
    (h : Accepts levels (.items vs) ds) :
    Accepts (levels + 1) (.value (.array (v :: vs))) ('[' :: (cs ++ ds)) := by
  intro n rest hn hrest
  rw [List.length_cons, List.length_append] at hn
  obtain ⟨m, rfl⟩ : ∃ m, n = m + 1 := ⟨n - 1, by omega⟩
  rw [List.cons_append, List.append_assoc, readValue_array fun body => hcs.skipBlank_value_ne _ _,
    Nat.add_sub_cancel, readItems_of_accepts hv h hds.ends_items (by omega)]
  rfl

theorem Accepts.nextItem {v : Json} {vs : List Json} (hds : Spells levels (.items vs) ds)
    (hv : Accepts levels (.value v) cs) (h : Accepts levels (.items vs) ds) :
    Accepts levels (.items (v :: vs)) (',' :: (cs ++ ds)) := by
  intro n rest w hn
  rw [List.length_cons, List.length_append] at hn
  obtain ⟨m, rfl⟩ : ∃ m, n = m + 1 := ⟨n - 1, by omega⟩
  have hnext : afterItem (m + 1) levels w (',' :: (cs ++ ds) ++ rest) = do
      let (vs, rest) ← readItems (m + 1) levels (cs ++ (ds ++ rest))
      return (w :: vs, rest) := by
    rw [List.cons_append, List.append_assoc]
    rfl
  rw [hnext, readItems_of_accepts hv h hds.ends_items (by omega)]
  rfl

theorem Accepts.object {name : String} {v : Json} {fs : List (String × Json)}
    (hds : Spells levels (.fields fs) ds) (hv : Accepts levels (.entry name v) cs)
    (h : Accepts levels (.fields fs) ds) :
    Accepts (levels + 1) (.value (.object ((name, v) :: fs))) ('\x7b' :: (cs ++ ds)) := by
  intro n rest hn hrest
  rw [List.length_cons, List.length_append] at hn
  obtain ⟨m, rfl⟩ : ∃ m, n = m + 1 := ⟨n - 1, by omega⟩
  obtain ⟨quoted, colon, value, hquote, -⟩ := hv m (ds ++ rest) (by omega) hds.ends_fields
  have hne (body : List Char) : skipBlank (cs ++ (ds ++ rest)) ≠ '\x7d' :: body := by
    rw [hquote]
    rintro ⟨⟩
  rw [List.cons_append, List.append_assoc, readValue_object hne, Nat.add_sub_cancel,
    readFields_of_accepts hv h hds.ends_fields (by omega)]
  simp only [Option.map_some, ofNamed_map_some]
  rfl

theorem Accepts.nextField {name : String} {v : Json} {fs : List (String × Json)}
    (hds : Spells levels (.fields fs) ds) (hv : Accepts levels (.entry name v) cs)
    (h : Accepts levels (.fields fs) ds) :
    Accepts levels (.fields ((name, v) :: fs)) (',' :: (cs ++ ds)) := by
  intro n rest name' w hn
  rw [List.length_cons, List.length_append] at hn
  obtain ⟨m, rfl⟩ : ∃ m, n = m + 1 := ⟨n - 1, by omega⟩
  have hnext : afterField (m + 1) levels name' w (',' :: (cs ++ ds) ++ rest) = do
      let (fs, rest) ← readFields (m + 1) levels (cs ++ (ds ++ rest))
      return ((name', w) :: fs, rest) := by
    rw [List.cons_append, List.append_assoc]
    rfl
  rw [hnext, readFields_of_accepts hv h hds.ends_fields (by omega)]
  rfl

theorem Accepts.entry {v : Json} (name : String) (h : Accepts levels (.value v) cs) :
    Accepts levels (.entry name v) (stringChars name ++ ':' :: cs) := by
  intro n rest hn hrest
  rw [List.length_append, List.length_cons] at hn
  refine ⟨name.toList.flatMap escapeChar ++ '"' :: (':' :: (cs ++ rest)), ':' :: (cs ++ rest),
    cs ++ rest, ?_, readString_stringChars name _, rfl, h n rest (by omega) hrest⟩
  rw [stringChars]
  simp only [List.cons_append, List.append_assoc, List.nil_append]
  exact skipBlank_of_not rfl _

/-- Every text of a part is read as that part. -/
theorem Spells.accepts {part : Part} (h : Spells levels part cs) : Accepts levels part cs := by
  induction h with
  | pad hc _ ih => exact ih.pad hc
  | null => exact fun n rest _ _ => rfl
  | bool b => cases b <;> exact fun n rest _ _ => rfl
  | number h => exact .number h
  | string s => exact .string s
  | emptyArray h =>
    intro n rest _ _
    rw [List.cons_append, readValue_array_cons, h.skipBlank_close]
    rfl
  | array hcs hds hv ih => exact .array hcs hds hv ih
  | lastItem => exact fun n rest v _ => rfl
  | nextItem _ hds hv ih => exact .nextItem hds hv ih
  | emptyObject h =>
    intro n rest _ _
    rw [List.cons_append, readValue_object_cons, h.skipBlank_closeObject]
    rfl
  | object _ hds hv ih => exact .object hds hv ih
  | entry name _ ih => exact ih.entry name
  | lastField => exact fun n rest name v _ => rfl
  | nextField _ hds hv ih => exact .nextField hds hv ih

end Accepts

end Qubo.Json

import Mathlib.Tactic
import Qubo.Telemetry.Event

/-! Texts without line feeds, each of them ended by one, are the lines of what they make up. -/
namespace Qubo.Telemetry

section Bytes

/-- What is left of the bytes is added to what has been taken. -/
theorem loop_eq {bs : ByteArray} {rest : List UInt8} {i : ℕ} (h : bs.data.toList.drop i = rest)
    (taken : List UInt8) : ByteArray.toList.loop bs i taken = taken.reverse ++ rest := by
  induction rest generalizing i taken with
  | nil =>
    have hi : ¬ i < bs.size := Nat.not_lt.mpr (List.drop_eq_nil_iff.mp h)
    rw [ByteArray.toList.loop, if_neg hi, List.append_nil]
  | cons b rest ih =>
    have hi : i < bs.size := by
      by_contra hi
      simp [List.drop_eq_nil_of_le (Nat.not_lt.mp hi)] at h
    obtain ⟨hb, hrest⟩ := List.cons.inj ((List.drop_eq_getElem_cons hi).symm.trans h)
    have hget : bs.get! i = b := by
      rw [← hb]
      exact getElem!_pos bs.data i hi
    rw [ByteArray.toList.loop, if_pos hi, ih hrest, hget, List.reverse_cons, List.append_assoc]
    rfl

theorem toList_toByteArray (bs : List UInt8) : bs.toByteArray.toList = bs :=
  loop_eq (i := 0) List.toList_data_toByteArray []

/-- Only the line feed itself is encoded with its byte. -/
theorem eq_of_mem_utf8EncodeChar {c : Char} (h : 10 ∈ String.utf8EncodeChar c) : c = '\n' := by
  have hbyte (n : ℕ) : (10 : UInt8) = UInt8.ofNat n ↔ n % 256 = 10 := by
    rw [← UInt8.toNat_inj, UInt8.toNat_ofNat', eq_comm]
    rfl
  simp only [String.utf8EncodeChar] at h
  split_ifs at h <;> simp only [List.mem_cons, List.not_mem_nil, or_false, hbyte] at h
  · exact Char.ext (UInt32.toNat_inj.mp (show c.val.toNat = 10 by omega))
  all_goals omega

theorem not_mem_bytes {cs : List Char} (h : '\n' ∉ cs) : 10 ∉ cs.flatMap String.utf8EncodeChar := by
  intro hmem
  obtain ⟨c, hc, hmem⟩ := List.mem_flatMap.mp hmem
  exact h (eq_of_mem_utf8EncodeChar hmem ▸ hc)

def bytesOf (text : String) : List UInt8 := text.toList.flatMap String.utf8EncodeChar

theorem toUTF8_eq (text : String) : text.toUTF8 = (bytesOf text).toByteArray := by
  rw [String.toUTF8_eq_toByteArray, ← String.utf8Encode_toList]
  rfl

theorem fromUTF8?_bytesOf (text : String) :
    String.fromUTF8? (bytesOf text).toByteArray = some text := by
  rw [← toUTF8_eq, String.toUTF8_eq_toByteArray]
  exact dif_pos text.isValidUTF8

end Bytes

variable {lines : Array ByteArray} {line : ByteArray}

theorem splitFrom_line {bs : List UInt8} (h : 10 ∉ bs) (rest : List UInt8) :
    splitFrom lines line (bs ++ 10 :: rest) =
      splitFrom (lines.push (line ++ bs.toByteArray)) .empty rest := by
  induction bs generalizing line with
  | nil => simp [splitFrom]
  | cons b bs ih =>
    obtain ⟨hb, hbs⟩ := not_or.mp (mt List.mem_cons.mpr h)
    rw [List.cons_append, splitFrom, if_neg (Ne.symm hb), ih hbs]
    congr 2
    apply ByteArray.ext
    simp [ByteArray.data_append]

theorem splitFrom_lines {texts : List (List UInt8)} (h : ∀ bs ∈ texts, 10 ∉ bs) :
    splitFrom lines .empty (texts.flatMap (· ++ [10])) =
      (lines ++ (texts.map List.toByteArray).toArray).push .empty := by
  induction texts generalizing lines with
  | nil => simp [splitFrom]
  | cons bs texts ih =>
    obtain ⟨hbs, htexts⟩ := List.forall_mem_cons.mp h
    rw [List.flatMap_cons, List.append_assoc, List.singleton_append, splitFrom_line hbs,
      ByteArray.empty_append, ih htexts]
    simp

theorem bytesOf_join (texts : List String) :
    bytesOf (String.join (texts.map (· ++ "\n"))) = (texts.map bytesOf).flatMap (· ++ [10]) := by
  induction texts with
  | nil => rfl
  | cons text texts ih =>
    have hline : bytesOf (text ++ "\n") = bytesOf text ++ [10] := by
      rw [bytesOf, String.toList_append, List.flatMap_append]
      rfl
    rw [List.map_cons, String.join_cons, bytesOf, String.toList_append, List.flatMap_append,
      ← bytesOf, ← bytesOf, hline, ih]
    rfl

/-- The end of the last line begins one more, which is blank. -/
theorem linesOf_join {texts : List String} (h : ∀ text ∈ texts, '\n' ∉ text.toList) :
    linesOf (String.join (texts.map (· ++ "\n"))).toUTF8 = texts.map some ++ [some ""] := by
  have hbytes : ∀ bs ∈ texts.map bytesOf, 10 ∉ bs := by
    intro bs hbs
    obtain ⟨text, htext, rfl⟩ := List.mem_map.mp hbs
    exact not_mem_bytes (h text htext)
  rw [linesOf, toUTF8_eq, toList_toByteArray, bytesOf_join, splitFrom_lines hbytes]
  have hblank : String.fromUTF8? .empty = some "" := fromUTF8?_bytesOf ""
  simp [fromUTF8?_bytesOf, hblank]

end Qubo.Telemetry

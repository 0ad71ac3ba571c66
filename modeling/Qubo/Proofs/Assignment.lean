import Mathlib.Tactic
import Qubo.Proofs.Bits
import Qubo.Proofs.Snapshot.Reading

/-! Assignments as they are made and as they are read. Whatever makes one gives zeros and ones;
whatever reads one keeps the bytes of the text. Zeros and ones are told by their text, their spins
and their word. -/
namespace Qubo
open Snapshot

namespace Bits

/-- The ways an assignment is made out of something else. -/
inductive IsMade : Bits → Prop
  | zeros (n : ℕ) : IsMade (zeros n)
  | ofValues (values : List UInt8) : IsMade (ofValues values)
  | ofPacked (packed n : ℕ) : IsMade (ofPacked packed n)
  | ofSpins (spins : List Float) : IsMade (ofSpins spins)

theorem IsMade.isBinary {b : Bits} (h : b.IsMade) : b.IsBinary := by
  cases h with
  | zeros n => exact fun v hv => Or.inl (List.eq_of_mem_replicate hv)
  | ofValues values => exact isBinary_ofValues values
  | ofPacked packed n => exact isBinary_ofPacked packed n
  | ofSpins spins => exact isBinary_ofSpins spins

/-- Text, spins and word all tell the assignment. -/
structure IsFaithful (b : Bits) : Prop where
  length_text : b.text.length = b.size
  ofSpins_spins : ofSpins (b.spins : List Float) = b
  ofPacked_packed : b.size ≤ maxPacked → ∃ p, b.packed? = some p ∧ ofPacked p b.size = b

section Text
variable {b b' : Bits}

theorem IsBinary.toList_text (h : b.IsBinary) :
    b.text.toList = b.values.map fun v => if v = 1 then '1' else '0' := by
  have hdigit (v : UInt8) (hv : v ∈ b.values) :
      (toString v.toNat).toList = [if v = 1 then '1' else '0'] := by
    rcases h v hv with rfl | rfl <;> decide
  rw [text, String.toList_join, List.flatMap_map, List.flatMap_congr hdigit]
  exact List.flatMap_pure_eq_map _ _

theorem IsBinary.length_text (h : b.IsBinary) : b.text.length = b.size := by
  rw [← String.length_toList, h.toList_text, List.length_map, size]

theorem IsBinary.bar_notMem_text (h : b.IsBinary) : '|' ∉ b.text.toList := by
  rw [h.toList_text]
  intro hbar
  obtain ⟨v, -, hv⟩ := List.mem_map.mp hbar
  split_ifs at hv <;> exact absurd hv (by decide)

/-- Each character gives its value back. -/
theorem IsBinary.values_eq (h : b.IsBinary) :
    (b.text.toList.map fun c => if c = '1' then (1 : UInt8) else 0) = b.values := by
  rw [h.toList_text, List.map_map]
  refine (List.map_congr_left fun v hv => ?_).trans (List.map_id _)
  rcases h v hv with rfl | rfl <;> rfl

theorem IsBinary.eq_of_text_eq (h : b.IsBinary) (h' : b'.IsBinary) (htext : b.text = b'.text) :
    b = b' := by
  have hvalues : b.values = b'.values := by rw [← h.values_eq, ← h'.values_eq, htext]
  cases b
  cases b'
  exact congrArg mk hvalues

theorem isBinary_iff_isFaithful : b.IsBinary ↔ b.IsFaithful := by
  constructor
  · intro h
    refine ⟨h.length_text, h.ofSpins_spins_float, fun hn => ?_⟩
    obtain ⟨p, -, hp, hback⟩ := Assigns.exists_ofPacked ⟨h, rfl⟩ hn
    exact ⟨p, hp, hback⟩
  · intro h
    rw [← h.ofSpins_spins]
    exact isBinary_ofSpins _

end Text

end Bits

namespace BitsPair

/-- Both layers hold zeros and ones only. -/
def IsBinary (p : BitsPair) : Prop := p.x0.IsBinary ∧ p.x1.IsBinary

theorem toList_text (p : BitsPair) :
    p.text.toList = p.x0.text.toList ++ '|' :: p.x1.text.toList := by
  simp [text, toString]

theorem IsBinary.eq_of_text_eq {p p' : BitsPair} (h : p.IsBinary) (h' : p'.IsBinary)
    (htext : p.text = p'.text) : p = p' := by
  have hchars := congrArg String.toList htext
  rw [toList_text, toList_text,
    List.append_cons_inj_of_notMem h.1.bar_notMem_text h.2.bar_notMem_text] at hchars
  have h0 := h.1.eq_of_text_eq h'.1 (String.toList_inj.mp hchars.1)
  have h1 := h.2.eq_of_text_eq h'.2 (String.toList_inj.mp hchars.2.2)
  cases p
  cases p'
  exact congrArg₂ mk h0 h1

end BitsPair

namespace Assignment

def layers : Assignment → List Bits
  | .dense x => [x]
  | .bipartite p => [p.x0, p.x1]

def IsBinary : Assignment → Prop
  | .dense x => x.IsBinary
  | .bipartite p => p.IsBinary

/-- Only the text of two layers has a bar in it. -/
theorem IsBinary.eq_of_text_eq {a a' : Assignment} (h : a.IsBinary) (h' : a'.IsBinary)
    (htext : a.text = a'.text) : a = a' := by
  have hbar (p : BitsPair) : '|' ∈ p.text.toList := by simp [p.toList_text]
  cases a with
  | dense x =>
    cases a' with
    | dense x' => exact congrArg dense (Bits.IsBinary.eq_of_text_eq h h' htext)
    | bipartite p' =>
      have hin : '|' ∈ x.text.toList := (show x.text = p'.text from htext) ▸ hbar p'
      exact absurd hin (Bits.IsBinary.bar_notMem_text h)
  | bipartite p =>
    cases a' with
    | dense x' =>
      have hin : '|' ∈ x'.text.toList := (show p.text = x'.text from htext) ▸ hbar p
      exact absurd hin (Bits.IsBinary.bar_notMem_text h')
    | bipartite p' => exact congrArg bipartite (BitsPair.IsBinary.eq_of_text_eq h h' htext)

end Assignment

/-- A part of a JSON value, at any depth. -/
inductive Json.Within (v : Json) : Json → Prop
  | whole : v.Within v
  | item {w : Json} {items : List Json} (hw : w ∈ items) (h : v.Within w) : v.Within (.array items)
  | field {f : String × Json} {fields : List (String × Json)} (hf : f ∈ fields)
    (h : v.Within f.2) : v.Within (.object fields)

namespace Snapshot

namespace PairDraft

def x0Place : Place PairDraft := ⟨"x0", bits, x0, fun d x => { d with x0 := x }⟩

def x1Place : Place PairDraft := ⟨"x1", bits, x1, fun d x => { d with x1 := x }⟩

theorem reads : Reads add [x0Place, x1Place] where
  add_eq := by
    rintro d ⟨name, v⟩
    unfold add
    split <;> simp_all [readInto, x0Place, x1Place]
  names := by decide
  get_set := by simp [x0Place, x1Place]
  apart := by simp [x0Place, x1Place]

end PairDraft

section Reading
variable {j : Json} {b : Bits} {p : BitsPair} {a : Assignment} {text : String}

theorem bits_eq_ok_iff : bits j = .ok b ↔ ∃ items, j = .array items ∧
    List.Forall₂ (fun item v => byte item = .ok v) items b.values := by
  constructor
  · intro h
    obtain ⟨values, hvalues, rfl⟩ := Result.exists_of_map_eq_ok h
    cases j with
    | array items => exact ⟨items, rfl, Result.forall₂_of_mapM_eq_ok hvalues⟩
    | _ => cases hvalues
  · rintro ⟨items, rfl, hitems⟩
    have hvalues : list byte (.array items) = .ok b.values := Result.mapM_eq_ok_iff.mpr hitems
    rw [bits, hvalues]
    rfl

theorem within_of_entries {names : List String} {fs : List (String × Json)} {f : String × Json}
    (h : entries names j = .ok fs) (hf : f ∈ fs) : f.2.Within j := by
  cases j with
  | object fields =>
    obtain rfl := Except.ok.inj h
    exact .field hf .whole
  | array items =>
    rw [entries] at h
    split_ifs at h with hlength
    rw [← Except.ok.inj h] at hf
    exact .item (List.of_mem_zip hf).2 .whole
  | _ => cases h

theorem within_of_bitsPair (h : bitsPair j = .ok p) (hb : b = p.x0 ∨ b = p.x1) :
    ∃ v : Json, v.Within j ∧ bits v = .ok b := by
  simp only [bitsPair, Result.bind_eq_ok_iff] at h
  obtain ⟨fs, hentries, d, hfold, x0, hx0, x1, hx1, hp⟩ := h
  obtain rfl := Except.ok.inj hp
  rcases hb with rfl | rfl
  · obtain ⟨⟨v, hv, hbits⟩, -⟩ :=
      PairDraft.reads.required_eq_ok PairDraft.x0Place (by simp) rfl hfold hx0
    exact ⟨v, within_of_entries hentries hv, hbits⟩
  · obtain ⟨⟨v, hv, hbits⟩, -⟩ :=
      PairDraft.reads.required_eq_ok PairDraft.x1Place (by simp) rfl hfold hx1
    exact ⟨v, within_of_entries hentries hv, hbits⟩

theorem within_of_assignment (h : assignment j = .ok a) (hb : b ∈ a.layers) :
    ∃ v : Json, v.Within j ∧ bits v = .ok b := by
  unfold assignment at h
  split at h
  case h_1 v =>
    obtain ⟨x, hx, rfl⟩ := Result.exists_of_map_eq_ok h
    obtain rfl := List.mem_singleton.mp hb
    exact ⟨v, .field List.mem_cons_self .whole, hx⟩
  case h_2 v =>
    obtain ⟨p, hp, rfl⟩ := Result.exists_of_map_eq_ok h
    obtain ⟨w, hw, hbits⟩ := within_of_bitsPair hp (by simpa [Assignment.layers] using hb)
    exact ⟨w, .field List.mem_cons_self hw, hbits⟩
  case h_3 => cases h

end Reading

section Writing

theorem byte_ofNat (v : UInt8) : byte (.ofNat v.toNat) = .ok v := by
  have hlt : v.toNat < 256 := v.toNat_lt
  have hword : word (.ofNat v.toNat) = .ok v.toNat := word_ofNat (hlt.trans (by decide))
  rw [byte, hword]
  exact (if_pos hlt).trans (congrArg Except.ok (UInt8.ofNat_toNat))

theorem bits_ofBits (b : Bits) : bits (ofBits b) = .ok b := by
  refine bits_eq_ok_iff.mpr ⟨_, rfl, ?_⟩
  rw [List.forall₂_map_left_iff]
  exact List.forall₂_same.mpr fun v _ => byte_ofNat v

theorem assignment_ofAssignment (a : Assignment) : assignment (ofAssignment a) = .ok a := by
  cases a with
  | dense x =>
    rw [ofAssignment, assignment, bits_ofBits]
    rfl
  | bipartite p =>
    have hfold : [("x0", ofBits p.x0), ("x1", ofBits p.x1)].foldlM PairDraft.add ⟨none, none⟩ =
        .ok ⟨some p.x0, some p.x1⟩ := by
      simp only [List.foldlM_cons, List.foldlM_nil, PairDraft.add, once, bits_ofBits]
      rfl
    have hpair : bitsPair (.object [("x0", ofBits p.x0), ("x1", ofBits p.x1)]) = .ok p := by
      simp only [bitsPair, Result.bind_eq_ok_iff]
      exact ⟨_, rfl, _, hfold, _, rfl, _, rfl, rfl⟩
    rw [ofAssignment, assignment, hpair]
    rfl

theorem fits_ofBits (b : Bits) {levels : ℕ} (h : 0 < levels) : (ofBits b).Fits levels := by
  simp [ofBits, Json.Fits, Json.itemsFit_iff, Json.ofNat, Json.Numeral.wellFormed_ofNat, h]

theorem fits_ofAssignment (a : Assignment) : (ofAssignment a).Fits Json.maxDepth := by
  cases a <;> simp [ofAssignment, Json.Fits, Json.FieldsFit, Json.maxDepth, fits_ofBits]

end Writing

end Snapshot

/-- An assignment that a text is read as, or a layer of one. -/
inductive Bits.IsReadFrom (text : String) : Bits → Prop
  | bits {b : Bits} (h : ofText bits text = .ok b) : IsReadFrom text b
  | pair {p : BitsPair} {b : Bits} (h : ofText bitsPair text = .ok p) (hb : b = p.x0 ∨ b = p.x1) :
    IsReadFrom text b
  | assignment {a : Assignment} {b : Bits} (h : ofText assignment text = .ok a)
    (hb : b ∈ a.layers) : IsReadFrom text b

theorem Bits.IsReadFrom.exists_items {text : String} {b : Bits} (h : b.IsReadFrom text) :
    ∃ j rest items, Json.readStart text.toList = some (j, rest) ∧ (Json.array items).Within j ∧
      List.Forall₂ (fun item v => byte item = .ok v) items b.values := by
  have hfound {j : Json} (hj : ∃ v : Json, v.Within j ∧ Snapshot.bits v = .ok b) :
      ∃ items, (Json.array items).Within j ∧
        List.Forall₂ (fun item v => byte item = .ok v) items b.values := by
    obtain ⟨v, hv, hb⟩ := hj
    obtain ⟨items, rfl, hitems⟩ := bits_eq_ok_iff.mp hb
    exact ⟨items, hv, hitems⟩
  cases h with
  | bits h =>
    obtain ⟨j, rest, hread, hb⟩ := exists_of_ofText h
    exact ⟨j, rest, (hfound ⟨j, .whole, hb⟩).imp fun _ hitems => ⟨hread, hitems⟩⟩
  | pair h hb =>
    obtain ⟨j, rest, hread, hp⟩ := exists_of_ofText h
    exact ⟨j, rest, (hfound (within_of_bitsPair hp hb)).imp fun _ hitems => ⟨hread, hitems⟩⟩
  | assignment h hb =>
    obtain ⟨j, rest, hread, ha⟩ := exists_of_ofText h
    exact ⟨j, rest, (hfound (within_of_assignment ha hb)).imp fun _ hitems => ⟨hread, hitems⟩⟩

theorem Bits.isBinary_iff_items {items : List Json} {b : Bits}
    (h : List.Forall₂ (fun item v => byte item = .ok v) items b.values) :
    b.IsBinary ↔ ∀ item ∈ items, byte item = .ok 0 ∨ byte item = .ok 1 := by
  constructor
  · intro hb item hitem
    obtain ⟨v, hv, heq⟩ := Result.exists_mem_of_forall₂ h.flip item hitem
    rcases hb v hv with rfl | rfl
    · exact Or.inl heq
    · exact Or.inr heq
  · intro hitems v hv
    obtain ⟨item, hitem, heq⟩ := Result.exists_mem_of_forall₂ h v hv
    refine (hitems item hitem).imp (fun h0 => ?_) fun h1 => ?_
    · exact Except.ok.inj (heq.symm.trans h0)
    · exact Except.ok.inj (heq.symm.trans h1)

/-- An assignment that is made holds zeros and ones. One that is read holds the bytes of its text,
whatever they are, so that it holds zeros and ones just if the text says so. Only with zeros and
ones do text, spins and word all tell the assignment, and then equal texts are texts of one. -/
theorem Assignment.binary_unless_read (b : Bits) (a a' : Assignment) :
    (b.IsMade → b.IsBinary) ∧
    (∀ text, b.IsReadFrom text → ∃ j rest items,
      Json.readStart text.toList = some (j, rest) ∧ (Json.array items).Within j ∧
      List.Forall₂ (fun item v => byte item = .ok v) items b.values ∧
      (b.IsBinary ↔ ∀ item ∈ items, byte item = .ok 0 ∨ byte item = .ok 1)) ∧
    (b.IsBinary ↔ b.IsFaithful) ∧
    ofText assignment (ofAssignment a).compact = .ok a ∧
    (a.IsBinary → a'.IsBinary → a.text = a'.text → a = a') := by
  refine ⟨fun h => h.isBinary, fun text h => ?_, Bits.isBinary_iff_isFaithful, ?_,
    fun h h' htext => h.eq_of_text_eq h' htext⟩
  · obtain ⟨j, rest, items, hread, hwithin, hitems⟩ := h.exists_items
    exact ⟨j, rest, items, hread, hwithin, hitems, Bits.isBinary_iff_items hitems⟩
  · have hstart := Json.readStart_compact (fits_ofAssignment a)
    exact (ofText_of_readStart assignment hstart).trans (assignment_ofAssignment a)

/-- A layer unpacked from a word and one of zeros, read back and told by their text. -/
theorem Assignment.binary_unless_read_of_layers :
    let a : Assignment := .bipartite ⟨.ofPacked 2 2, .zeros 1⟩
    ofText assignment (ofAssignment a).compact = .ok a ∧ (∀ b ∈ a.layers, b.IsFaithful) ∧
      a.text = "01|0" ∧ ∀ a' : Assignment, a'.IsBinary → a'.text = "01|0" → a' = a := by
  intro a
  obtain ⟨hmade0, -, hfaithful0, hread, -⟩ := binary_unless_read (.ofPacked 2 2) a a
  obtain ⟨hmade1, -, hfaithful1, -, -⟩ := binary_unless_read (.zeros 1) a a
  have h0 := hmade0 (.ofPacked 2 2)
  have h1 := hmade1 (.zeros 1)
  have htold : a.text = "01|0" := by decide +kernel
  refine ⟨hread, ?_, htold, fun a' ha' h => ?_⟩
  · exact List.forall_mem_cons.mpr
      ⟨hfaithful0.mp h0, List.forall_mem_singleton.mpr (hfaithful1.mp h1)⟩
  · obtain ⟨-, -, -, -, htext⟩ := binary_unless_read (.zeros 1) a' a
    exact htext ha' ⟨h0, h1⟩ (h.trans htold.symm)

/-- A stored ten has the text of a one and a zero. Neither its spin nor its word leads back. -/
theorem Assignment.stored_ten :
    let ten : Bits := ⟨[10]⟩
    ofText assignment "\x7b\"dense\":[10]\x7d" = .ok (.dense ten) ∧
    ofText assignment "\x7b\"dense\":[1,0]\x7d" = .ok (.dense (.ofPacked 1 2)) ∧
    dense ten ≠ dense (.ofPacked 1 2) ∧ (dense ten).text = (dense (.ofPacked 1 2)).text ∧
    ¬ ten.IsBinary ∧ Bits.ofSpins (ten.spins : List Float) = .ofPacked 1 1 ∧
    ten.packed?.map (Bits.ofPacked · 1) = some (.zeros 1) := by
  refine ⟨by decide +kernel, by decide +kernel, by decide, by decide +kernel, by decide,
    by decide +kernel, by decide +kernel⟩

end Qubo

import Mathlib.Tactic
import Qubo.Proofs.Json.Spelling

/-! Values that can be held are read back from what either writer makes of them. -/
namespace Qubo.Json
open Decimal

mutual
/-- Whether a value is written as text of the grammar, with no more than a number of levels of
nesting. -/
def Fits : ℕ → Json → Prop
  | _, .unreadable => False
  | _, .number n => n.WellFormed
  | levels, .array items => 0 < levels ∧ ItemsFit (levels - 1) items
  | levels, .object fields => 0 < levels ∧ FieldsFit (levels - 1) fields
  | _, _ => True
def ItemsFit : ℕ → List Json → Prop
  | _, [] => True
  | levels, v :: vs => Fits levels v ∧ ItemsFit levels vs
def FieldsFit : ℕ → List (String × Json) → Prop
  | _, [] => True
  | levels, (_, v) :: fs => Fits levels v ∧ FieldsFit levels fs
end

theorem itemsFit_iff {levels : ℕ} {items : List Json} :
    ItemsFit levels items ↔ ∀ v ∈ items, v.Fits levels := by
  induction items with
  | nil => simp [ItemsFit]
  | cons v vs ih => simp [ItemsFit, ih]

theorem fieldsFit_iff {levels : ℕ} {fields : List (String × Json)} :
    FieldsFit levels fields ↔ ∀ f ∈ fields, f.2.Fits levels := by
  induction fields with
  | nil => simp [FieldsFit]
  | cons f fs ih => simp [FieldsFit, ih]

theorem Spells.blanks {levels : ℕ} {part : Part} {bs cs : List Char}
    (hbs : ∀ c ∈ bs, isBlank c = true) (h : Spells levels part cs) :
    Spells levels part (bs ++ cs) := by
  induction bs with
  | nil => exact h
  | cons b bs ih =>
    obtain ⟨hb, hbs⟩ := List.forall_mem_cons.mp hbs
    exact .pad hb (ih hbs)

theorem isBlank_of_mem_newLine (level : ℕ) : ∀ c ∈ newLine level, isBlank c = true := by
  simp only [newLine, List.forall_mem_cons]
  refine ⟨rfl, fun c hc => ?_⟩
  rw [List.eq_of_mem_replicate hc]
  rfl

mutual
theorem spells_compactChars : ∀ {levels : ℕ} {j : Json}, j.Fits levels →
    Spells levels (.value j) j.compactChars
  | _, .null, _ => .null
  | _, .bool b, _ => .bool b
  | _, .number _, h => .number h
  | _, .string s, _ => .string s
  | _ + 1, .array [], _ => .emptyArray .lastItem
  | _ + 1, .array (_ :: _), ⟨_, hv, hvs⟩ =>
    .array (spells_compactChars hv) (spells_compactItems hvs)
  | _ + 1, .object [], _ => .emptyObject .lastField
  | _ + 1, .object ((name, v) :: fs), ⟨_, hv, hfs⟩ => by
    have h := Spells.object (.entry name (spells_compactChars hv)) (spells_compactFields hfs)
    simpa [compactChars] using h
theorem spells_compactItems : ∀ {levels : ℕ} {vs : List Json}, ItemsFit levels vs →
    Spells levels (.items vs) (compactItems vs)
  | _, [], _ => .lastItem
  | _, _ :: _, ⟨hv, hvs⟩ => .nextItem (spells_compactChars hv) (spells_compactItems hvs)
theorem spells_compactFields : ∀ {levels : ℕ} {fs : List (String × Json)}, FieldsFit levels fs →
    Spells levels (.fields fs) (compactFields fs)
  | _, [], _ => .lastField
  | _, (name, v) :: fs, ⟨hv, hfs⟩ => by
    have h := Spells.nextField (.entry name (spells_compactChars hv)) (spells_compactFields hfs)
    simpa [compactFields] using h
end

mutual
theorem spells_prettyChars : ∀ {levels level : ℕ} {j : Json}, j.Fits levels →
    Spells levels (.value j) (prettyChars level j)
  | _, _, .null, _ => .null
  | _, _, .bool true, _ => .bool true
  | _, _, .bool false, _ => .bool false
  | _, _, .number _, h => .number h
  | _, _, .string s, _ => .string s
  | _ + 1, _, .array [], _ => .emptyArray .lastItem
  | _ + 1, _, .array (_ :: _), ⟨_, hv, hvs⟩ =>
    .array (.blanks (isBlank_of_mem_newLine _) (spells_prettyChars hv)) (spells_prettyItems hvs)
  | _ + 1, _, .object [], _ => .emptyObject .lastField
  | _ + 1, level, .object ((name, v) :: fs), ⟨_, hv, hfs⟩ => by
    have hvalue : Spells _ (.value v) (' ' :: prettyChars (level + 1) v) :=
      .pad rfl (spells_prettyChars hv)
    have hrest : Spells _ (.fields fs) (prettyFields level fs) := spells_prettyFields hfs
    have h := Spells.object (.blanks (isBlank_of_mem_newLine (level + 1)) (.entry name hvalue)) hrest
    simpa [prettyChars] using h
theorem spells_prettyItems : ∀ {levels level : ℕ} {vs : List Json}, ItemsFit levels vs →
    Spells levels (.items vs) (prettyItems level vs)
  | _, _, [], _ => .blanks (isBlank_of_mem_newLine _) .lastItem
  | _, _, _ :: _, ⟨hv, hvs⟩ =>
    .nextItem (.blanks (isBlank_of_mem_newLine _) (spells_prettyChars hv)) (spells_prettyItems hvs)
theorem spells_prettyFields : ∀ {levels level : ℕ} {fs : List (String × Json)},
    FieldsFit levels fs → Spells levels (.fields fs) (prettyFields level fs)
  | _, _, [], _ => .blanks (isBlank_of_mem_newLine _) .lastField
  | _, level, (name, v) :: fs, ⟨hv, hfs⟩ => by
    have hvalue : Spells _ (.value v) (' ' :: prettyChars (level + 1) v) :=
      .pad rfl (spells_prettyChars hv)
    have hrest : Spells _ (.fields fs) (prettyFields level fs) := spells_prettyFields hfs
    have h :=
      Spells.nextField (.blanks (isBlank_of_mem_newLine (level + 1)) (.entry name hvalue)) hrest
    simpa [prettyFields] using h
end

section RoundTrip
variable {j : Json} {cs : List Char}

theorem readStart_of_spells (h : Spells maxDepth (.value j) cs) : readStart cs = some (j, []) := by
  have hread := h.accepts (2 * cs.length + 1) [] (by omega) ends_nil
  rwa [List.append_nil] at hread

theorem read?_of_spells (h : Spells maxDepth (.value j) cs) : read? (String.ofList cs) = some j := by
  rw [read?, String.toList_ofList, readStart_of_spells h]
  rfl

theorem read?_compact (h : j.Fits maxDepth) : read? j.compact = some j :=
  read?_of_spells (spells_compactChars h)

theorem readStart_compact (h : j.Fits maxDepth) : readStart j.compact.toList = some (j, []) := by
  rw [compact, String.toList_ofList]
  exact readStart_of_spells (spells_compactChars h)

theorem readStart_pretty (h : j.Fits maxDepth) : readStart j.pretty.toList = some (j, []) := by
  rw [pretty, String.toList_ofList]
  exact readStart_of_spells (spells_prettyChars h)

end RoundTrip

end Qubo.Json

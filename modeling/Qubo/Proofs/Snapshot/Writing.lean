import Mathlib.Tactic
import Qubo.Json.Snapshot
import Qubo.Proofs.Float.Writing
import Qubo.Proofs.Json.RoundTrip
import Qubo.Proofs.Result
import Qubo.Proofs.Solvable

/-! Snapshots of problems as they are written: a problem of finite values is read back, if its
values are. -/
namespace Qubo
open Scalar

namespace Problem
variable {α : Type}

def matrix : Problem α → Matrix α
  | .dense w => w
  | .bipartite p => p.w

def coefficients : Problem α → List α
  | .dense w => w.data.toList
  | .bipartite p => p.b0 ++ p.b1 ++ p.w.data.toList

theorem hasFiniteCoefficients_iff [Scalar α] {p : Problem α} :
    p.HasFiniteCoefficients ↔ ∀ x ∈ p.coefficients, IsFinite x := by
  cases p with
  | dense w => simp [HasFiniteCoefficients, coefficients, Matrix.HasFiniteEntries]
  | bipartite p =>
    simp [HasFiniteCoefficients, coefficients, Matrix.HasFiniteEntries, or_imp, forall_and]

end Problem

namespace Snapshot

/-- The numeral that a float is written as stands for that float. -/
def ReadsBack (x : Float) : Prop :=
  ∀ n, Json.Numeral.ofFloat? x = some n → n.toFloat? = some x

/-- A finite float that is read back. -/
structure Survives (x : Float) : Prop where
  finite : IsFinite x
  readsBack : ReadsBack x

section Writing
variable {x : Float} {xs : List Float} {m : Matrix Float} {p : Problem Float}

theorem Survives.exists_ofFloat (h : Survives x) :
    ∃ n, Json.ofFloat x = .number n ∧ n.WellFormed ∧ n.toFloat? = some x := by
  obtain ⟨n, hn, hwell⟩ := Float64.exists_ofFloat? h.finite
  exact ⟨n, by rw [Json.ofFloat, hn], hwell, h.readsBack n hn⟩

theorem float_ofFloat (h : Survives x) : float (Json.ofFloat x) = .ok x := by
  obtain ⟨n, hn, -, hx⟩ := h.exists_ofFloat
  rw [hn, float, hx]
  rfl

theorem list_ofFloats (h : ∀ x ∈ xs, Survives x) : list float (Json.ofFloats xs) = .ok xs := by
  rw [Json.ofFloats, list]
  induction xs with
  | nil => rfl
  | cons x xs ih =>
    obtain ⟨hx, hxs⟩ := List.forall_mem_cons.mp h
    rw [List.map_cons, List.mapM_cons, float_ofFloat hx, ih hxs]
    rfl

theorem fits_ofFloats {levels : ℕ} (h : ∀ x ∈ xs, Survives x) :
    (Json.ofFloats xs).Fits (levels + 1) := by
  rw [Json.ofFloats, Json.Fits, Json.itemsFit_iff]
  refine ⟨Nat.succ_pos _, ?_⟩
  simp only [List.forall_mem_map]
  intro x hx
  obtain ⟨n, hn, hwell, -⟩ := (h x hx).exists_ofFloat
  rwa [hn, Json.Fits]

theorem isReadable_ofFloats (h : ∀ x ∈ xs, Survives x) :
    (Json.ofFloats xs).isReadable = true := by
  rw [Json.ofFloats, Json.isReadable]
  induction xs with
  | nil => rfl
  | cons x xs ih =>
    obtain ⟨hx, hxs⟩ := List.forall_mem_cons.mp h
    obtain ⟨n, hn, -, hread⟩ := hx.exists_ofFloat
    rw [List.map_cons, Json.itemsReadable, ih hxs, hn, Json.isReadable, hread]
    rfl

theorem word_ofNat {n : ℕ} (h : n < UInt64.size) : word (Json.ofNat n) = .ok n := by
  rw [Json.ofNat, word, Float64.toWord?_ofNat h]
  rfl

theorem fits_ofMatrix {levels : ℕ} (h : ∀ x ∈ m.data.toList, Survives x) :
    (ofMatrix m).Fits (levels + 2) := by
  have hdata : (Json.ofFloats m.data.toList).Fits (levels + 1) := fits_ofFloats h
  simp [ofMatrix, Json.Fits, Json.FieldsFit, Json.ofNat, Json.Numeral.wellFormed_ofNat, hdata]

theorem isReadable_ofMatrix (h : ∀ x ∈ m.data.toList, Survives x) (hrows : m.rows < UInt64.size)
    (hcols : m.cols < UInt64.size) : (ofMatrix m).isReadable = true := by
  simp [ofMatrix, Json.isReadable, Json.fieldsReadable, Json.ofNat,
    Float64.isSome_toFloat?_ofNat hrows, Float64.isSome_toFloat?_ofNat hcols,
    isReadable_ofFloats h]

theorem matrix_ofMatrix (h : ∀ x ∈ m.data.toList, Survives x) (hrows : m.rows < UInt64.size)
    (hcols : m.cols < UInt64.size) : matrix (ofMatrix m) = .ok m := by
  have hfold : [("rows", Json.ofNat m.rows), ("cols", .ofNat m.cols),
      ("data", .ofFloats m.data.toList)].foldlM MatrixDraft.add ⟨none, none, none⟩ =
        .ok ⟨some m.rows, some m.cols, some m.data.toList⟩ := by
    have hdata := list_ofFloats h
    simp only [List.foldlM_cons, List.foldlM_nil, MatrixDraft.add, once, word_ofNat hrows,
      word_ofNat hcols, hdata]
    rfl
  have hshape : Matrix.ofArray? m.rows m.cols m.data.toList.toArray = some m := dif_pos m.size_eq
  simp only [matrix, Result.bind_eq_ok_iff]
  refine ⟨_, rfl, _, hfold, _, rfl, _, rfl, _, rfl, ?_⟩
  rw [hshape]
  rfl

theorem isReadable_ofProblem (h : ∀ x ∈ p.coefficients, Survives x)
    (hrows : p.matrix.rows < UInt64.size) (hcols : p.matrix.cols < UInt64.size) :
    (ofProblem p).isReadable = true := by
  cases p with
  | dense w =>
    have hw := isReadable_ofMatrix h hrows hcols
    simp [ofProblem, Json.isReadable, Json.fieldsReadable, hw]
  | bipartite p =>
    simp only [Problem.coefficients, List.forall_mem_append] at h
    obtain ⟨⟨h0, h1⟩, hw⟩ := h
    have hw := isReadable_ofMatrix hw hrows hcols
    simp [ofProblem, Json.isReadable, Json.fieldsReadable, hw, isReadable_ofFloats h0,
      isReadable_ofFloats h1]

theorem fits_ofProblem (h : ∀ x ∈ p.coefficients, Survives x) :
    (ofProblem p).Fits Json.maxDepth := by
  cases p with
  | dense w =>
    have hw : (ofMatrix w).Fits 126 := fits_ofMatrix h
    simp [ofProblem, Json.Fits, Json.FieldsFit, Json.maxDepth, hw]
  | bipartite p =>
    simp only [Problem.coefficients, List.forall_mem_append] at h
    obtain ⟨⟨h0, h1⟩, hw⟩ := h
    have hw : (ofMatrix p.w).Fits 126 := fits_ofMatrix hw
    have h0 : (Json.ofFloats p.b0).Fits 126 := fits_ofFloats h0
    have h1 : (Json.ofFloats p.b1).Fits 126 := fits_ofFloats h1
    simp [ofProblem, Json.Fits, Json.FieldsFit, Json.maxDepth, hw, h0, h1]

theorem problem_ofProblem (h : ∀ x ∈ p.coefficients, Survives x)
    (hrows : p.matrix.rows < UInt64.size) (hcols : p.matrix.cols < UInt64.size) :
    problem (ofProblem p) = .ok p := by
  have hreadable := isReadable_ofProblem h hrows hcols
  rw [problem, if_pos hreadable]
  beta_reduce
  cases p with
  | dense w =>
    have hw := matrix_ofMatrix h hrows hcols
    have hfold : [("w", ofMatrix w)].foldlM ProblemDraft.addDense ⟨none, none, none⟩ =
        .ok ⟨none, none, some w⟩ := by
      simp only [List.foldlM_cons, List.foldlM_nil, ProblemDraft.addDense, once, hw]
      rfl
    refine Result.bind_eq_ok_iff.mpr ⟨("dense", .object [("w", ofMatrix w)]), rfl, ?_⟩
    simp only [Result.bind_eq_ok_iff]
    exact ⟨_, rfl, _, hfold, _, rfl, rfl⟩
  | bipartite p =>
    simp only [Problem.coefficients, List.forall_mem_append] at h
    obtain ⟨⟨h0, h1⟩, hw⟩ := h
    have hw := matrix_ofMatrix hw hrows hcols
    have h0 := list_ofFloats h0
    have h1 := list_ofFloats h1
    have hfold : [("b0", Json.ofFloats p.b0), ("b1", .ofFloats p.b1), ("w", ofMatrix p.w)].foldlM
        ProblemDraft.addBipartite ⟨none, none, none⟩ = .ok ⟨some p.b0, some p.b1, some p.w⟩ := by
      simp only [List.foldlM_cons, List.foldlM_nil, ProblemDraft.addBipartite, once, hw, h0, h1]
      rfl
    refine Result.bind_eq_ok_iff.mpr ⟨("rbm", .object [("b0", .ofFloats p.b0), ("b1", .ofFloats p.b1),
      ("w", ofMatrix p.w)]), rfl, ?_⟩
    simp only [Result.bind_eq_ok_iff]
    exact ⟨_, rfl, _, hfold, _, rfl, _, rfl, _, rfl, rfl⟩

/-- A text that is all one value is read as that value is. -/
theorem ofText_of_readStart {β : Type} (decode : Json → Decoded β) {text : String} {j : Json}
    (h : Json.readStart text.toList = some (j, [])) : ofText decode text = decode j := by
  rw [ofText, h]
  exact bind_pure (decode j)

/-- A problem of finite values that are read back is read back as a whole. -/
theorem ofJson_toJson (h : ∀ x ∈ p.coefficients, Survives x)
    (hrows : p.matrix.rows < UInt64.size) (hcols : p.matrix.cols < UInt64.size) :
    Problem.ofJson p.toJson = .ok p := by
  have hstart : Json.readStart p.toJson.toList = some (ofProblem p, []) :=
    Json.readStart_pretty (fits_ofProblem h)
  exact (ofText_of_readStart problem hstart).trans (problem_ofProblem h hrows hcols)

end Writing

end Snapshot

end Qubo

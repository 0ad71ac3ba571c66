import Mathlib.Tactic
import Qubo.Proofs.Snapshot.Reading

/-! Snapshots of problems and the problems themselves: writing and reading are inverse, and no
text is read as a matrix of another shape than it declares. -/
namespace Qubo
open Scalar Snapshot

/-- A problem of finite values is read back from its snapshot unchanged, if the numerals of its
values are, and a problem that is read from any text has the shape the text declares, with as many
values as that shape has entries: a text that declares more entries than it has characters is
refused. What is read is again finite, and so is read back from its own snapshot. -/
theorem snapshots_round_trip :
    (∀ p : Problem Float, p.HasFiniteCoefficients → (∀ x ∈ p.coefficients, ReadsBack x) →
      p.matrix.rows < UInt64.size → p.matrix.cols < UInt64.size →
        Problem.ofJson p.toJson = .ok p) ∧
    (∀ text p, Problem.ofJson text = .ok p →
      (∀ rows cols, Declares text rows cols ↔ (rows, cols) = p.matrix.shape) ∧
      p.matrix.data.size = p.matrix.rows * p.matrix.cols ∧ p.matrix.data.size ≤ text.length ∧
      p.HasFiniteCoefficients ∧
      ((∀ x ∈ p.coefficients, ReadsBack x) → Problem.ofJson p.toJson = .ok p)) ∧
    ∀ text rows cols, Declares text rows cols → text.length < rows * cols →
      ∃ e, Problem.ofJson text = .error e := by
  have hwrite (p : Problem Float) (hfinite : p.HasFiniteCoefficients)
      (hback : ∀ x ∈ p.coefficients, ReadsBack x) (hrows : p.matrix.rows < UInt64.size)
      (hcols : p.matrix.cols < UInt64.size) : Problem.ofJson p.toJson = .ok p := by
    have hfinite := Problem.hasFiniteCoefficients_iff.mp hfinite
    exact ofJson_toJson (fun x hx => ⟨hfinite x hx, hback x hx⟩) hrows hcols
  refine ⟨hwrite, ?_, ?_⟩
  · intro text p h
    have hfinite := Problem.hasFiniteCoefficients_iff.mpr (isFinite_of_ofJson h)
    obtain ⟨hrows, hcols⟩ := ((declares_iff h).mpr ⟨rfl, rfl⟩).lt
    refine ⟨fun rows cols => ?_, p.matrix.size_eq, size_le_of_ofJson h, hfinite, fun hback => ?_⟩
    · rw [declares_iff h, Matrix.shape, Prod.mk.injEq]
    · exact hwrite p hfinite hback hrows hcols
  · intro text rows cols hshape hlt
    cases h : Problem.ofJson text with
    | error e => exact ⟨e, rfl⟩
    | ok p =>
      obtain ⟨rfl, rfl⟩ := (declares_iff h).mp hshape
      have hsize := size_le_of_ofJson h
      rw [p.matrix.size_eq] at hsize
      exact absurd hlt (not_lt.mpr hsize)

/-- A problem with two values is read back, and its snapshot declares its shape; a square that
overflows a word is refused. -/
theorem snapshots_round_trip_of_row :
    let p : Problem Float := .dense ⟨1, 2, #[0.5, -1.25], rfl⟩
    let overflowing : Json := .object [("graph", .string "dense"), ("w", .object
      [("rows", .ofNat (2 ^ 32)), ("cols", .ofNat (2 ^ 32)), ("data", .array [])])]
    Problem.ofJson p.toJson = .ok p ∧ Declares p.toJson 1 2 ∧
      ∃ e, Problem.ofJson overflowing.pretty = .error e := by
  intro p overflowing
  obtain ⟨hwrite, hread, hrefuse⟩ := snapshots_round_trip
  have hsurvives {x : Float} {n : Json.Numeral} (hn : Json.Numeral.ofFloat? x = some n)
      (hx : n.toFloat? = some x) : Survives x := by
    refine ⟨Float64.isFinite_of_toFloat? hx, fun n' hn' => ?_⟩
    obtain rfl := Option.some.inj (hn.symm.trans hn')
    exact hx
  have hvalues : ∀ x ∈ p.coefficients, Survives x := by
    simp only [p, Problem.coefficients, List.forall_mem_cons]
    exact ⟨hsurvives (n := ⟨false, [0], [5], none⟩) (by decide +kernel) (by decide +kernel),
      hsurvives (n := ⟨true, [1], [2, 5], none⟩) (by decide +kernel) (by decide +kernel), by simp⟩
  have hround : Problem.ofJson p.toJson = .ok p :=
    hwrite p (Problem.hasFiniteCoefficients_iff.mpr fun x hx => (hvalues x hx).finite)
      (fun x hx => (hvalues x hx).readsBack) (by decide) (by decide)
  refine ⟨hround, ((hread _ p hround).1 1 2).mpr rfl, ?_⟩
  apply hrefuse _ (2 ^ 32) (2 ^ 32)
  · refine ⟨overflowing, [], "dense", _, _, _, Json.readStart_pretty ?_, rfl, rfl,
      List.mem_cons_self, ?_⟩
    · simp [overflowing, Json.Fits, Json.FieldsFit, Json.ItemsFit, Json.ofNat, Json.maxDepth,
        Json.Numeral.wellFormed_ofNat]
    · refine ⟨_, .ofNat (2 ^ 32), .ofNat (2 ^ 32), rfl, by simp, ?_, by simp, ?_⟩
      · exact word_ofNat (by decide)
      · exact word_ofNat (by decide)
  · decide +kernel

end Qubo

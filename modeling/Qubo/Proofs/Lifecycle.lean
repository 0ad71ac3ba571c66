import Mathlib.Tactic
import Qubo.Proofs.Anneal.Lifecycle
import Qubo.Proofs.Finite
import Qubo.Proofs.Search.Lifecycle

/-! What has to come first, for solvers of all four kinds. -/
namespace Qubo

/-- The protocol of all four kinds of solvers, after any requests. Steps and readings of an annealer
go with a successful preparation or complete run that no problem and no number of slices has
followed; regions and the end of an exhaustive search go with a successful opening that no problem,
no end and no complete search has followed, as long as all problems have finite energies. While a
search is open its bounds are those of the problem in force, and what it has kept lies below. -/
theorem solvers_follow_protocol {α : Type} [Scalar α] [Transcendental α] [LawfulEnergies α]
    [StaysInfinite α] :
    (∀ (entropy : Random.Generator) (requests : List (Anneal.Request (Anneal.denseFamily α) α)),
      Anneal.FollowsProtocol entropy requests) ∧
    (∀ (entropy : Random.Generator) (requests : List (Anneal.Request (Anneal.bipartiteFamily α) α)),
      Anneal.FollowsProtocol entropy requests) ∧
    (∀ requests : List (Search.Request (Search.denseFamily α) α),
      (∀ w d, .setProblem w d ∈ requests → (Problem.dense w).HasFiniteEnergies) →
      Search.FollowsProtocol 1024 0 requests ∧
        ((Search.Memory.after requests (.new 1024 0)).searching = true →
          ∃ w d, Search.loaded requests = some (w, d) ∧
            (Search.Memory.after requests (.new 1024 0)).bound = 2 ^ w.rows ∧
            ∀ key ∈ (Search.Memory.after requests (.new 1024 0)).ties, key < 2 ^ w.rows)) ∧
    ∀ requests : List (Search.Request (Search.bipartiteFamily α) α),
      (∀ p d, .setProblem p d ∈ requests → (Problem.bipartite p).HasFiniteEnergies) →
      Search.FollowsProtocol (256, 256) (0, 0) requests ∧
        ((Search.Memory.after requests (.new (256, 256) (0, 0))).searching = true →
          ∃ p d, Search.loaded requests = some (p, d) ∧
            (Search.Memory.after requests (.new (256, 256) (0, 0))).bound =
              (2 ^ p.b0.length, 2 ^ p.b1.length) ∧
            ∀ key ∈ (Search.Memory.after requests (.new (256, 256) (0, 0))).ties,
              key.1 < 2 ^ p.b0.length ∧ key.2 < 2 ^ p.b1.length) := by
  refine ⟨Anneal.followsProtocol, Anneal.followsProtocol, fun requests hfinite => ⟨?_, ?_⟩,
    fun requests hfinite => ⟨?_, ?_⟩⟩
  · apply Search.followsProtocol (F := Search.denseFamily α) ⟨1024, rfl⟩
    intro w d hmem hcheck
    exact Search.hasBoundedEnergy_dense (hfinite w d hmem) hcheck d
  · intro hopen
    obtain ⟨w, d, hl, hbound, hties⟩ := Search.Memory.exists_loaded_of_searching
      (fun bound key => key < bound) Search.lt_of_mem_candidates_dense hopen
    simp only [Search.bound_signed_dense] at hbound hties
    exact ⟨w, d, hl, hbound, hties⟩
  · apply Search.followsProtocol (F := Search.bipartiteFamily α) ⟨(256, 256), rfl⟩
    intro p d hmem hcheck
    exact Search.hasBoundedEnergy_bipartite (hfinite p d hmem) hcheck d
  · intro hopen
    obtain ⟨p, d, hl, hbound, hties⟩ := Search.Memory.exists_loaded_of_searching
      (fun bound key : ℕ × ℕ => key.1 < bound.1 ∧ key.2 < bound.2)
      Search.lt_of_mem_candidates_bipartite hopen
    simp only [Search.bound_signed_bipartite] at hbound hties
    exact ⟨p, d, hl, hbound, hties⟩

/-- Annealers that have just been given a number of slices, and searches that are under way, on two
variables of one layer and on three of two. -/
theorem solvers_follow_protocol_of_searching :
    letI : Transcendental ℚ := ⟨id, id, id, id⟩
    let w : Matrix ℚ := .fill 2 2 1
    let p : Bipartite.Coefficients ℚ := ⟨[0, 1], [1], .fill 1 2 1⟩
    let settled : List (Anneal.Request (Anneal.denseFamily ℚ) ℚ) :=
      [.setProblem w .maximize, .initAnneal, .setTrotters 2]
    let settled' : List (Anneal.Request (Anneal.bipartiteFamily ℚ) ℚ) :=
      [.setProblem p .maximize, .initAnneal, .setTrotters 2]
    let searching : List (Search.Request (Search.denseFamily ℚ) ℚ) :=
      [.setProblem w .maximize, .search, .initSearch, .searchRange (1, 3)]
    let searching' : List (Search.Request (Search.bipartiteFamily ℚ) ℚ) :=
      [.setProblem p .minimize, .initSearch, .finSearch, .initSearch, .searchRange ((0, 2), (1, 2))]
    Anneal.FollowsProtocol (.ofSeed 0) settled ∧ Anneal.FollowsProtocol (.ofSeed 0) settled' ∧
    ((∃ v, ((Search.DenseSession.new.run searching).step .finSearch).2 = .ok v) ∧
      (Search.Memory.after searching (.new 1024 0)).bound = (4 : ℕ) ∧
      ∀ key ∈ (Search.Memory.after searching (.new 1024 0)).ties, key < (4 : ℕ)) ∧
    (∃ v, ((Search.BipartiteSession.new.run searching').step .finSearch).2 = .ok v) ∧
      (Search.Memory.after searching' (.new (256, 256) (0, 0))).bound = ((4, 2) : ℕ × ℕ) ∧
      ∀ key ∈ (Search.Memory.after searching' (.new (256, 256) (0, 0))).ties,
        key.1 < (4 : ℕ) ∧ key.2 < (2 : ℕ) := by
  intro w p settled settled' searching searching'
  let _ : Transcendental ℚ := ⟨id, id, id, id⟩
  obtain ⟨hdense, hbipartite, hsearch, hsearch'⟩ := solvers_follow_protocol (α := ℚ)
  have hfinite (p : Problem ℚ) : p.HasFiniteEnergies := fun _ _ _ => Scalar.isFinite_rat _
  have hopen : (Search.Memory.after searching (.new 1024 0)).searching = true := by
    decide +kernel
  have hopen' : (Search.Memory.after searching' (.new (256, 256) (0, 0))).searching = true := by
    decide +kernel
  obtain ⟨hprotocol, hbelow⟩ := hsearch searching fun w _ _ => hfinite (.dense w)
  obtain ⟨hprotocol', hbelow'⟩ := hsearch' searching' fun p _ _ => hfinite (.bipartite p)
  have hcheck := Search.check_dense_iff.mpr ⟨Dense.check_of_isMirrored (w := w) (by decide),
    show w.rows ≤ Bits.maxPacked by decide⟩
  have hcheck' := Search.check_bipartite_iff.mpr ⟨show p.check = .ok () by decide,
    show p.b0.length ≤ Bits.maxPacked ∧ p.b1.length ≤ Bits.maxPacked by decide⟩
  have hload := Search.loaded_setProblem (F := Search.denseFamily ℚ) hcheck .maximize []
  have hload' := Search.loaded_setProblem (F := Search.bipartiteFamily ℚ) hcheck' .minimize []
  obtain ⟨given, d, hl, hbound, hties⟩ := hbelow hopen
  obtain ⟨given', d', hl', hbound', hties'⟩ := hbelow' hopen'
  obtain ⟨rfl, -⟩ := Prod.mk.inj (Option.some.inj (hl.symm.trans hload))
  obtain ⟨rfl, -⟩ := Prod.mk.inj (Option.some.inj (hl'.symm.trans hload'))
  refine ⟨hdense (.ofSeed 0) settled, hbipartite (.ofSeed 0) settled', ⟨?_, hbound, hties⟩, ?_,
    hbound', hties'⟩
  · exact hprotocol.ending.answered.mpr (hprotocol.flagged.mp hopen)
  · exact hprotocol'.ending.answered.mpr (hprotocol'.flagged.mp hopen')

end Qubo

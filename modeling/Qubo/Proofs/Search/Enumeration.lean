import Mathlib.Tactic
import Qubo.Proofs.Bits.Word
import Qubo.Proofs.Search.Bipartite
import Qubo.Proofs.Search.Dense

/-! Packed words number the assignments: each word below `2 ^ n` is the word of one assignment of
`n` variables, and each assignment has one. A search that counts through the words therefore meets
every assignment, and none of them twice. -/
namespace Qubo

namespace Bits

section Words
variable {n : ℕ} (hn : n ≤ maxPacked)
include hn

theorem ofWord_of_le (p : UInt64) : ofWord p n = ofPacked p.toNat n :=
  ofWord_eq (hn.trans (by decide)) p

theorem map_toNat_word?_ofWord (p : UInt64) :
    (ofWord p n).word?.map UInt64.toNat = some (p.toNat % 2 ^ n) := by
  rw [map_toNat_word?, ofWord_of_le hn, packed?_ofPacked _ hn]

/-- The word of an assignment leads back to it. -/
theorem Assigns.exists_word {b : Bits} (hb : b.Assigns n) :
    ∃ p : UInt64, b.word? = some p ∧ p.toNat < 2 ^ n ∧ ofWord p n = b := by
  obtain ⟨p, hlt, hp, hback⟩ := hb.exists_ofPacked hn
  have hsize : 2 ^ n ≤ 2 ^ maxPacked := Nat.pow_le_pow_right (by decide) hn
  have hword : (UInt64.ofNat p).toNat = p :=
    UInt64.toNat_ofNat_of_lt' (hlt.trans_le (hsize.trans (by decide)))
  refine ⟨UInt64.ofNat p, ?_, by rwa [hword], ?_⟩
  · rw [word?_eq_some_iff, hword, hp]
  · rw [ofWord_of_le hn, hword, hback]

theorem bijOn_ofWord : Set.BijOn (ofWord · n) {p | p.toNat < 2 ^ n} {b | b.Assigns n} := by
  simp only [ofWord_of_le hn]
  refine ⟨fun p _ => assigns_ofPacked p.toNat n, fun p hp r hr h => ?_, fun b hb => ?_⟩
  · exact UInt64.toNat_inj.mp (ofPacked_injOn hn hp hr h)
  · obtain ⟨p, -, hlt, hback⟩ := Assigns.exists_word hn hb
    exact ⟨p, hlt, by rwa [ofWord_of_le hn] at hback⟩

end Words

end Bits

namespace Search
variable {α : Type} [Scalar α]

/-- The assignments that a dense search meets. -/
theorem enumerates_visited_dense {w : Matrix α} (hn : w.rows ≤ Bits.maxPacked) (tile : ℕ) :
    Enumerates ((visited (F := denseFamily α) w (max tile 1)).map fun c =>
      Enumerable.solution (F := denseFamily α) w c.1) (Bits.Assigns w.rows) := by
  rw [visited_dense w (lt_max_of_lt_right one_pos), List.map_map]
  exact Bits.enumerates_ofPacked hn

/-- The pairs of assignments that a bipartite search meets. -/
theorem enumerates_visited_bipartite {p : Bipartite.Coefficients α}
    (hn0 : p.b0.length ≤ Bits.maxPacked) (hn1 : p.b1.length ≤ Bits.maxPacked) (tile : ℕ × ℕ) :
    Enumerates ((visited (F := bipartiteFamily α) p (max tile.1 1, max tile.2 1)).map fun c =>
      Enumerable.solution (F := bipartiteFamily α) p c.1)
      (BitsPair.Assigns p.b0.length p.b1.length) := by
  have hkeys : ((visited (F := bipartiteFamily α) p (max tile.1 1, max tile.2 1)).map fun c =>
      Enumerable.solution (F := bipartiteFamily α) p c.1) =
        (covered p.b0.length p.b1.length (max tile.1 1, max tile.2 1)).map
          (unpackPair p.b0.length p.b1.length) := by
    rw [← map_fst_visited_bipartite, List.map_map]
    rfl
  rw [hkeys]
  exact enumerates_unpackPair hn0 hn1 (lt_max_of_lt_right one_pos) (lt_max_of_lt_right one_pos)

end Search

/-- For any number of variables that are packed at all, packing undoes unpacking up to the bits that
no variable takes, and unpacking undoes packing; so the words below `2 ^ n` are the assignments of
`n` variables, one for one, and a complete search by either exhaustive solver, in regions of any
size, meets every assignment once. Longer assignments have no word. -/
theorem words_number_assignments {α : Type} [Scalar α] :
    (∀ n ≤ Bits.maxPacked,
      (∀ p : UInt64, Bits.ofWord p n = .ofPacked p.toNat n ∧
        (Bits.ofWord p n).word?.map UInt64.toNat = some (p.toNat % 2 ^ n)) ∧
      (∀ b : Bits, b.Assigns n → ∃ p : UInt64,
        b.word? = some p ∧ p.toNat < 2 ^ n ∧ Bits.ofWord p n = b) ∧
      Set.BijOn (Bits.ofWord · n) {p | p.toNat < 2 ^ n} {b | b.Assigns n}) ∧
    (∀ b : Bits, b.word?.map UInt64.toNat = b.packed? ∧
      (b.word? = none ↔ Bits.maxPacked < b.size)) ∧
    (∀ (w : Matrix α) (tile : ℕ), w.rows ≤ Bits.maxPacked →
      Enumerates ((Search.visited (F := Search.denseFamily α) w (max tile 1)).map fun c =>
        Search.Enumerable.solution (F := Search.denseFamily α) w c.1) (Bits.Assigns w.rows)) ∧
    ∀ (p : Bipartite.Coefficients α) (tile : ℕ × ℕ),
      p.b0.length ≤ Bits.maxPacked → p.b1.length ≤ Bits.maxPacked →
      Enumerates ((Search.visited (F := Search.bipartiteFamily α) p
          (max tile.1 1, max tile.2 1)).map fun c =>
        Search.Enumerable.solution (F := Search.bipartiteFamily α) p c.1)
        (BitsPair.Assigns p.b0.length p.b1.length) := by
  refine ⟨fun n hn => ⟨fun p => ?_, fun b hb => hb.exists_word hn, Bits.bijOn_ofWord hn⟩,
    fun b => ⟨b.map_toNat_word?, Bits.word?_eq_none_iff⟩, fun w tile hn => ?_,
    fun p tile hn0 hn1 => ?_⟩
  · exact ⟨Bits.ofWord_of_le hn p, Bits.map_toNat_word?_ofWord hn p⟩
  · exact Search.enumerates_visited_dense hn tile
  · exact Search.enumerates_visited_bipartite hn0 hn1 tile

/-- All ones in as many variables as there is room for, a word of five bits, one variable too many,
and searches over three variables and over two against one. -/
theorem words_number_assignments_of_five :
    let b : Bits := ⟨[1, 0, 1, 1, 0]⟩
    let w : Matrix ℚ := .fill 3 3 1
    let p : Bipartite.Coefficients ℚ := ⟨[1, -1], [2], .fill 1 2 3⟩
    (63 ≤ Bits.maxPacked ∧
      (Bits.ofWord (-1) 63).word?.map UInt64.toNat = some (2 ^ 63 - 1)) ∧
    (b.Assigns 5 ∧ ∃ p : UInt64, b.word? = some p ∧ p.toNat < 2 ^ 5 ∧ Bits.ofWord p 5 = b) ∧
    (Bits.zeros 64).word? = none ∧
    (w.rows ≤ Bits.maxPacked ∧
      Enumerates ((Search.visited (F := Search.denseFamily ℚ) w (max 3 1)).map fun c =>
        Search.Enumerable.solution (F := Search.denseFamily ℚ) w c.1) (Bits.Assigns 3)) ∧
    p.b0.length ≤ Bits.maxPacked ∧ p.b1.length ≤ Bits.maxPacked ∧
      Enumerates ((Search.visited (F := Search.bipartiteFamily ℚ) p (max 3 1, max 0 1)).map fun c =>
        Search.Enumerable.solution (F := Search.bipartiteFamily ℚ) p c.1)
        (BitsPair.Assigns 2 1) := by
  intro b w p
  obtain ⟨hwords, hany, hdense, hbipartite⟩ := words_number_assignments (α := ℚ)
  obtain ⟨hmany, -, -⟩ := hwords 63 le_rfl
  obtain ⟨-, hfive, -⟩ := hwords 5 (by decide)
  have hb : b.Assigns 5 := Bits.assigns_ofPacked 13 5
  have hw : w.rows ≤ Bits.maxPacked := by decide
  have hn0 : p.b0.length ≤ Bits.maxPacked := by decide
  have hn1 : p.b1.length ≤ Bits.maxPacked := by decide
  refine ⟨⟨le_rfl, (hmany (-1)).2⟩, ⟨hb, hfive b hb⟩, ?_, ⟨hw, hdense w 3 hw⟩, hn0, hn1,
    hbipartite p (3, 0) hn0 hn1⟩
  exact (hany _).2.mpr (by decide)

end Qubo

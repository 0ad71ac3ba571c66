import Mathlib.Tactic
import Mathlib.Data.List.ProdSigma
import Qubo.Search.Bipartite
import Qubo.Proofs.Bipartite
import Qubo.Proofs.Search.Session

/-! Exhaustive search of bipartite problems: rectangles of any size tile the space of pairs, each
pair is met once with its energy, and the list that is published holds the optima. -/
namespace Qubo.Search

private theorem product_append_perm (l b c : List ℕ) :
    (l ×ˢ (b ++ c)).Perm (l ×ˢ b ++ l ×ˢ c) := by
  have h := List.flatMap_append_perm l (fun a => b.map (Prod.mk a)) (fun a => c.map (Prod.mk a))
  simp only [← List.map_append] at h
  exact h.symm

private theorem flatMap_product {β : Type} (rs : List β) (f : β → List ℕ) (b : List ℕ) :
    rs.flatMap (fun r => f r ×ˢ b) = rs.flatMap f ×ˢ b :=
  List.flatMap_assoc.symm

/-- The rectangles over two partitions make up the whole rectangle. -/
private theorem rectangles_perm {β : Type} (rs ts : List β) (f : β → List ℕ) :
    (ts.flatMap fun t => rs.flatMap fun r => f r ×ˢ f t).Perm (rs.flatMap f ×ˢ ts.flatMap f) := by
  induction ts with
  | nil => simp
  | cons t ts ih =>
    rw [List.flatMap_cons, List.flatMap_cons, flatMap_product]
    exact (List.Perm.append_left _ ih).trans (product_append_perm _ _ _).symm

/-- The pairs of words in the order in which the rectangles of a tile cover them. -/
def covered (n0 n1 : ℕ) (tile : ℕ × ℕ) : List (ℕ × ℕ) :=
  (rectangles (Bits.count n0) (Bits.count n1) tile).flatMap fun r => span r.1 ×ˢ span r.2

/-- Rectangles of any size cover each pair of words once. -/
theorem covered_perm (n0 n1 : ℕ) (tile : ℕ × ℕ) (h0 : 0 < tile.1) (h1 : 0 < tile.2) :
    (covered n0 n1 tile).Perm (List.range (2 ^ n0) ×ˢ List.range (2 ^ n1)) := by
  rw [covered, rectangles, List.flatMap_assoc]
  simp only [List.flatMap_map]
  rw [← Bits.count_eq, ← Bits.count_eq, ← flatMap_span_tiles h0, ← flatMap_span_tiles h1]
  exact rectangles_perm _ _ span

theorem mem_covered (n0 n1 : ℕ) {tile : ℕ × ℕ} (h0 : 0 < tile.1) (h1 : 0 < tile.2)
    {key : ℕ × ℕ} : key ∈ covered n0 n1 tile ↔ key.1 < 2 ^ n0 ∧ key.2 < 2 ^ n1 := by
  rw [(covered_perm n0 n1 tile h0 h1).mem_iff, ← List.mem_range, ← List.mem_range]
  exact List.mem_product

theorem enumerates_covered (n0 n1 : ℕ) {tile : ℕ × ℕ} (h0 : 0 < tile.1) (h1 : 0 < tile.2) :
    Enumerates (covered n0 n1 tile) fun key => key.1 < 2 ^ n0 ∧ key.2 < 2 ^ n1 := by
  constructor
  case nodup =>
    rw [(covered_perm n0 n1 tile h0 h1).nodup_iff]
    exact List.nodup_range.product List.nodup_range
  case mem_iff => exact fun key => mem_covered n0 n1 h0 h1

section
variable {α : Type} [Scalar α]

/-- A rectangle holds the pairs of its ranges, clipped to the space. -/
theorem candidates_bipartite_clipped (p : Bipartite.Coefficients α)
    (region : (ℕ × ℕ) × (ℕ × ℕ)) : bipartiteCandidates p region =
      (span (region.1.1, min region.1.2 (Bits.count p.b0.length)) ×ˢ
        span (region.2.1, min region.2.2 (Bits.count p.b1.length))).map fun key =>
        (key, p.value (Bits.ofPacked key.1 p.b0.length).reals
          (Bits.ofPacked key.2 p.b1.length).reals) := by
  obtain ⟨⟨begin0, end0⟩, begin1, end1⟩ := region
  simp only [bipartiteCandidates, Bipartite.Coefficients.size, SProd.sprod, List.product,
    List.map_flatMap, List.map_map]
  rfl

theorem candidates_bipartite {p : Bipartite.Coefficients α} {region : (ℕ × ℕ) × (ℕ × ℕ)}
    (h0 : region.1.2 ≤ Bits.count p.b0.length) (h1 : region.2.2 ≤ Bits.count p.b1.length) :
    bipartiteCandidates p region = (span region.1 ×ˢ span region.2).map fun key =>
      (key, p.value (Bits.ofPacked key.1 p.b0.length).reals
        (Bits.ofPacked key.2 p.b1.length).reals) := by
  rw [candidates_bipartite_clipped, min_eq_left h0, min_eq_left h1]

/-- A search meets every pair of words, with the plain value of the pair it stands for. -/
theorem visited_bipartite (p : Bipartite.Coefficients α) (tile : ℕ × ℕ) :
    visited (F := bipartiteFamily α) p tile =
      (covered p.b0.length p.b1.length tile).map fun key =>
        (key, p.value (Bits.ofPacked key.1 p.b0.length).reals
          (Bits.ofPacked key.2 p.b1.length).reals) := by
  rw [covered, List.map_flatMap]
  refine List.flatMap_congr fun region hregion => ?_
  obtain ⟨range1, h1, hregion⟩ := List.mem_flatMap.mp hregion
  obtain ⟨range0, h0, rfl⟩ := List.mem_map.mp hregion
  exact candidates_bipartite (le_of_mem_tiles h0) (le_of_mem_tiles h1)

theorem map_fst_visited_bipartite (p : Bipartite.Coefficients α) (tile : ℕ × ℕ) :
    (visited (F := bipartiteFamily α) p tile).map Prod.fst =
      covered p.b0.length p.b1.length tile := by
  rw [visited_bipartite, List.map_map]
  exact List.map_id _

theorem check_bipartite_iff {p : Bipartite.Coefficients α} :
    Enumerable.check (F := bipartiteFamily α) p = .ok () ↔
      p.check = .ok () ∧ p.b0.length ≤ Bits.maxPacked ∧ p.b1.length ≤ Bits.maxPacked := by
  change (do p.check; checkPackable [p.b0.length, p.b1.length]) = .ok () ↔ _
  cases hp : p.check <;> by_cases h0 : Bits.maxPacked < p.b0.length <;>
    by_cases h1 : Bits.maxPacked < p.b1.length <;>
    simp [checkPackable, h0, h1, not_le.mpr, not_lt.mp, bind, Except.bind]

end

/-- The pair of assignments that a pair of words stands for. -/
def unpackPair (n0 n1 : ℕ) (key : ℕ × ℕ) : BitsPair := ⟨.ofPacked key.1 n0, .ofPacked key.2 n1⟩

theorem unpackPair_injOn {n0 n1 : ℕ} (hn0 : n0 ≤ Bits.maxPacked) (hn1 : n1 ≤ Bits.maxPacked)
    {key key' : ℕ × ℕ} (hkey : key.1 < 2 ^ n0 ∧ key.2 < 2 ^ n1)
    (hkey' : key'.1 < 2 ^ n0 ∧ key'.2 < 2 ^ n1)
    (h : unpackPair n0 n1 key = unpackPair n0 n1 key') : key = key' := by
  obtain ⟨h0, h1⟩ := BitsPair.mk.inj h
  exact Prod.ext (Bits.ofPacked_injOn hn0 hkey.1 hkey'.1 h0)
    (Bits.ofPacked_injOn hn1 hkey.2 hkey'.2 h1)

/-- The value that a pair is met with is its energy with the sign of the direction. -/
theorem energy_unpackPair {p : Bipartite.Coefficients ℚ} (hp : p.check = .ok ()) (d : Direction)
    (key : ℕ × ℕ) : p.energy (unpackPair p.b0.length p.b1.length key) =
      .ok (d.sign ((p.signed d).value (Bits.ofPacked key.1 p.b0.length).reals
        (Bits.ofPacked key.2 p.b1.length).reals)) := by
  rw [p.value_signed, Direction.sign_sign]
  exact (Bipartite.Coefficients.energy_eq_ok_iff hp).mpr
    ⟨Bits.size_ofPacked _ _, Bits.size_ofPacked _ _, rfl⟩

theorem exists_unpackPair {n0 n1 : ℕ} (hn0 : n0 ≤ Bits.maxPacked) (hn1 : n1 ≤ Bits.maxPacked)
    {x : BitsPair} (hx : x.Assigns n0 n1) :
    ∃ key : ℕ × ℕ, (key.1 < 2 ^ n0 ∧ key.2 < 2 ^ n1) ∧ unpackPair n0 n1 key = x := by
  obtain ⟨key0, hlt0, -, h0⟩ := hx.1.exists_ofPacked hn0
  obtain ⟨key1, hlt1, -, h1⟩ := hx.2.exists_ofPacked hn1
  exact ⟨(key0, key1), ⟨hlt0, hlt1⟩, by rw [unpackPair, h0, h1]⟩

/-- The pairs of words stand for the pairs of assignments. -/
theorem enumerates_unpackPair {n0 n1 : ℕ} (hn0 : n0 ≤ Bits.maxPacked) (hn1 : n1 ≤ Bits.maxPacked)
    {tile : ℕ × ℕ} (h0 : 0 < tile.1) (h1 : 0 < tile.2) :
    Enumerates ((covered n0 n1 tile).map (unpackPair n0 n1)) (BitsPair.Assigns n0 n1) := by
  refine (enumerates_covered n0 n1 h0 h1).map (fun key key' => unpackPair_injOn hn0 hn1)
    (fun key _ => ?_) fun x => exists_unpackPair hn0 hn1
  exact ⟨Bits.assigns_ofPacked key.1 n0, Bits.assigns_ofPacked key.2 n1⟩

theorem solution_bipartite {α : Type} [Scalar α] (p : Bipartite.Coefficients α) (d : Direction) :
    Enumerable.solution (F := bipartiteFamily α) (Enumerable.signed (F := bipartiteFamily α) p d) =
      unpackPair p.b0.length p.b1.length := by
  rw [← p.length_b0_signed d, ← p.length_b1_signed d]
  rfl

/-- A search of a loaded bipartite problem, in any tiles and with room for any number of
optima. -/
theorem BipartiteSession.search_lists {s : BipartiteSession ℚ} {p : Bipartite.Coefficients ℚ}
    (hproblem : s.problem = some (p.signed s.direction)) (hp : p.check = .ok ())
    (hn0 : p.b0.length ≤ Bits.maxPacked) (hn1 : p.b1.length ≤ Bits.maxPacked)
    (htile0 : 0 < s.tile.1) (htile1 : 0 < s.tile.2) (hcap : 0 < s.cap) :
    ∃ (found : BipartiteSession ℚ) (reported optimum : ℚ),
      s.search = .ok found ∧ found.direction = s.direction ∧
      Lists s.direction (BitsPair.Assigns p.b0.length p.b1.length) p.energy s.cap found.energies
        found.solutions reported optimum := by
  have hvisited := visited_bipartite (p.signed s.direction) s.tile
  rw [p.length_b0_signed, p.length_b1_signed] at hvisited
  have hne : covered p.b0.length p.b1.length s.tile ≠ [] :=
    List.ne_nil_of_mem ((mem_covered _ _ htile0 htile1).mpr
      (show (0, 0).1 < _ ∧ (0, 0).2 < _ by simp))
  obtain ⟨found, -, reported, optimum, hfound, hdirection, -, -, hlists⟩ :=
    Session.search_lists hproblem hcap hvisited (solution_bipartite p s.direction) hne
      (enumerates_unpackPair hn0 hn1 htile0 htile1)
      fun key _ => energy_unpackPair hp s.direction key
  exact ⟨found, reported, optimum, hfound, hdirection, hlists⟩

/-- Exhaustive search of an accepted bipartite problem with at most 63 variables in either layer
meets every pair of words once, with its signed energy, and lists the optima. -/
theorem BipartiteSession.search_lists_optimal_pairs (s : BipartiteSession ℚ)
    (p : Bipartite.Coefficients ℚ) (d : Direction) (tile : ℕ × ℕ) (cap : ℕ)
    (hp : p.check = .ok ()) (hn0 : p.b0.length ≤ Bits.maxPacked)
    (hn1 : p.b1.length ≤ Bits.maxPacked) :
    ∃ (loaded ready found : BipartiteSession ℚ) (seen : List ((ℕ × ℕ) × ℚ))
      (reported optimum : ℚ),
      s.setProblem p d = .ok loaded ∧ ready = (loaded.setTile tile).setCap cap ∧
      seen = visited (F := bipartiteFamily ℚ) (p.signed d) ready.tile ∧
      (seen.map Prod.fst).Perm (List.range (2 ^ p.b0.length) ×ˢ List.range (2 ^ p.b1.length)) ∧
      (∀ c ∈ seen, ∃ e, c.2 = d.sign e ∧
        p.energy ⟨.ofPacked c.1.1 p.b0.length, .ofPacked c.1.2 p.b1.length⟩ = .ok e) ∧
      ready.search = Session.finSearch { ready with
        tally := some (Tally.empty.offerAll (max cap 1) seen) } ∧
      ready.search = .ok found ∧
      Lists d (BitsPair.Assigns p.b0.length p.b1.length) p.energy (max cap 1) found.energies
        found.solutions reported optimum := by
  have hloaded := Session.setProblem_eq_ok (F := bipartiteFamily ℚ)
    (check_bipartite_iff.mpr ⟨hp, hn0, hn1⟩) d s
  have htile0 : 0 < max tile.1 1 := lt_max_of_lt_right one_pos
  have htile1 : 0 < max tile.2 1 := lt_max_of_lt_right one_pos
  obtain ⟨found, reported, optimum, hfound, -, hlists⟩ :=
    BipartiteSession.search_lists (s := Session.setCap cap (Session.setTile tile { s with
      direction := d, problem := some (p.signed d), tally := none })) (p := p) rfl hp hn0 hn1
      htile0 htile1 (lt_max_of_lt_right one_pos)
  refine ⟨_, _, found, _, reported, optimum, hloaded, rfl, rfl, ?_, ?_, Session.search_eq rfl,
    hfound, hlists⟩
  · have hfst := map_fst_visited_bipartite (p.signed d) (max tile.1 1, max tile.2 1)
    rw [p.length_b0_signed, p.length_b1_signed] at hfst
    exact hfst ▸ covered_perm p.b0.length p.b1.length (max tile.1 1, max tile.2 1) htile0 htile1
  · intro c hc
    have hc : c ∈ visited (F := bipartiteFamily ℚ) (p.signed d) (max tile.1 1, max tile.2 1) := hc
    rw [visited_bipartite, p.length_b0_signed, p.length_b1_signed] at hc
    obtain ⟨key, -, rfl⟩ := List.mem_map.mp hc
    exact ⟨_, (Direction.sign_sign d _).symm, energy_unpackPair hp d key⟩

/-- A layer of two variables against a single one, in rectangles of three words by one. -/
theorem BipartiteSession.search_lists_optimal_pairs_of_three :
    let p : Bipartite.Coefficients ℚ := ⟨[1, -1], [2], Matrix.generate 1 2 fun _ c => c - 2⟩
    p.check = .ok () ∧ p.b0.length ≤ Bits.maxPacked ∧ p.b1.length ≤ Bits.maxPacked ∧
    ∃ (loaded ready found : BipartiteSession ℚ) (seen : List ((ℕ × ℕ) × ℚ))
      (reported optimum : ℚ),
      BipartiteSession.new.setProblem p .maximize = .ok loaded ∧
      ready = (loaded.setTile ((3, 0) : ℕ × ℕ)).setCap 2 ∧
      seen = visited (F := bipartiteFamily ℚ) (p.signed .maximize) ready.tile ∧
      (seen.map Prod.fst).Perm (List.range (2 ^ p.b0.length) ×ˢ List.range (2 ^ p.b1.length)) ∧
      (∀ c ∈ seen, ∃ e, c.2 = Direction.maximize.sign e ∧
        p.energy ⟨.ofPacked c.1.1 p.b0.length, .ofPacked c.1.2 p.b1.length⟩ = .ok e) ∧
      ready.search = Session.finSearch { ready with
        tally := some (Tally.empty.offerAll (max 2 1) seen) } ∧
      ready.search = .ok found ∧
      Lists .maximize (BitsPair.Assigns p.b0.length p.b1.length) p.energy (max 2 1)
        found.energies found.solutions reported optimum := by
  intro p
  have hp : p.check = .ok () := Bipartite.Coefficients.check_eq_ok_iff.mpr (by decide)
  have hn0 : p.b0.length ≤ Bits.maxPacked := by decide
  have hn1 : p.b1.length ≤ Bits.maxPacked := by decide
  exact ⟨hp, hn0, hn1, BipartiteSession.search_lists_optimal_pairs BipartiteSession.new p
    .maximize (3, 0) 2 hp hn0 hn1⟩

end Qubo.Search

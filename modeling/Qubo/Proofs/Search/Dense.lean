import Mathlib.Tactic
import Qubo.Search.Dense
import Qubo.Proofs.Dense
import Qubo.Proofs.Search.Session

/-! Exhaustive search of dense problems: every assignment is met once, in the order of the packed
words, and the list that is published holds the optima. -/
namespace Qubo

namespace Bits

theorem enumerates_range (n : ℕ) : Enumerates (List.range (2 ^ n)) (· < 2 ^ n) :=
  ⟨List.nodup_range, fun _ => List.mem_range⟩

theorem enumerates_ofPacked {n : ℕ} (hn : n ≤ maxPacked) :
    Enumerates ((List.range (2 ^ n)).map (ofPacked · n)) (Assigns n) := by
  refine (enumerates_range n).map (fun p r hp hr => ofPacked_injOn hn hp hr)
    (fun p _ => assigns_ofPacked p n) fun b hb => ?_
  obtain ⟨p, hp, -, hback⟩ := hb.exists_ofPacked hn
  exact ⟨p, hp, hback⟩

end Bits

namespace Search

section
variable {α : Type} [Scalar α]

theorem candidates_dense {w : Matrix α} {region : ℕ × ℕ} (h : region.2 ≤ Bits.count w.rows) :
    denseCandidates w region = (span region).map fun key =>
      (key, Dense.quadratic w (Bits.ofPacked key w.rows).reals) := by
  rw [denseCandidates, min_eq_left h]

/-- A search meets the words of all assignments in increasing order. -/
theorem visited_dense (w : Matrix α) {tile : ℕ} (htile : 0 < tile) :
    visited (F := denseFamily α) w tile = (List.range (2 ^ w.rows)).map fun key =>
      (key, Dense.quadratic w (Bits.ofPacked key w.rows).reals) := by
  rw [← Bits.count_eq, ← flatMap_span_tiles htile, List.map_flatMap]
  exact List.flatMap_congr fun region hregion => candidates_dense (le_of_mem_tiles hregion)

theorem solution_dense (w : Matrix α) (d : Direction) :
    Enumerable.solution (F := denseFamily α) (Enumerable.signed (F := denseFamily α) w d) =
      (Bits.ofPacked · w.rows) :=
  funext fun key => congrArg (Bits.ofPacked key) (w.rows_sign d)

theorem check_dense_iff {w : Matrix α} :
    Enumerable.check (F := denseFamily α) w = .ok () ↔
      Dense.check w = .ok () ∧ w.rows ≤ Bits.maxPacked := by
  change (do Dense.check w; checkPackable [w.rows]) = .ok () ↔ _
  by_cases hn : Bits.maxPacked < w.rows
  · cases hw : Dense.check w <;> simp [checkPackable, hn, not_le.mpr hn, bind, Except.bind]
  · cases hw : Dense.check w <;> simp [checkPackable, hn, not_lt.mp hn, bind, Except.bind]

end

/-- A search of a loaded dense problem, in any tiles and with room for any number of optima. -/
theorem DenseSession.search_lists {s : DenseSession ℚ} {w : Matrix ℚ}
    (hp : s.problem = some (s.direction.sign w)) (hw : Dense.check w = .ok ())
    (hn : w.rows ≤ Bits.maxPacked) (htile : 0 < s.tile) (hcap : 0 < s.cap) :
    ∃ (found : DenseSession ℚ) (keys : List ℕ) (reported optimum : ℚ),
      s.search = .ok found ∧ found.direction = s.direction ∧
      found.solutions.map Bits.packed? = keys.map some ∧ keys.Pairwise (· < ·) ∧
      Lists s.direction (Bits.Assigns w.rows) (Dense.energy w) s.cap found.energies found.solutions
        reported optimum := by
  have hvisited := visited_dense (s.direction.sign w) htile
  rw [w.rows_sign] at hvisited
  have henergy (key : ℕ) (_ : key ∈ List.range (2 ^ w.rows)) :
      Dense.energy w (Bits.ofPacked key w.rows) = .ok (s.direction.sign
        (Dense.quadratic (s.direction.sign w) (Bits.ofPacked key w.rows).reals)) := by
    rw [Dense.quadratic_sign, Direction.sign_sign]
    exact (Dense.energy_eq_ok_iff hw).mpr ⟨Bits.size_ofPacked key w.rows, rfl⟩
  obtain ⟨found, kept, reported, optimum, hfound, hdirection, hsolutions, hkept, hlists⟩ :=
    Session.search_lists hp hcap hvisited (solution_dense w s.direction) (by simp)
      (Bits.enumerates_ofPacked hn) henergy
  refine ⟨found, kept, reported, optimum, hfound, hdirection, ?_, ?_, hlists⟩
  · rw [hsolutions, List.map_map]
    refine List.map_congr_left fun key hkey => ?_
    exact Bits.packed?_ofPacked_of_lt hn (List.mem_range.mp (hkept.subset hkey))
  · exact List.pairwise_lt_range.sublist hkept

/-- Exhaustive search of an accepted dense problem of at most 63 variables finds the optima: the
list ascends in the packed words, and with separated energies and room left it is exactly the set
of optima. -/
theorem DenseSession.search_lists_optima (s : DenseSession ℚ) (w : Matrix ℚ) (d : Direction)
    (tile cap : ℕ) (hw : Dense.check w = .ok ()) (hn : w.rows ≤ Bits.maxPacked) :
    ∃ (loaded found : DenseSession ℚ) (keys : List ℕ) (reported optimum : ℚ),
      s.setProblem w d = .ok loaded ∧ ((loaded.setTile tile).setCap cap).search = .ok found ∧
      Lists d (Bits.Assigns w.rows) (Dense.energy w) (max cap 1) found.energies found.solutions
        reported optimum ∧
      found.solutions.map Bits.packed? = keys.map some ∧ keys.Pairwise (· < ·) ∧
      (Separated (Bits.Assigns w.rows) (Dense.energy w) → found.solutions.length < max cap 1 →
        ∀ x, x ∈ found.solutions ↔ x.Assigns w.rows ∧ Dense.energy w x = .ok optimum) := by
  have hloaded := Session.setProblem_eq_ok (F := denseFamily ℚ) (check_dense_iff.mpr ⟨hw, hn⟩) d s
  obtain ⟨found, keys, reported, optimum, hfound, -, hkeys, hascending, hlists⟩ :=
    DenseSession.search_lists (s := Session.setCap cap (Session.setTile tile { s with
      direction := d, problem := some (d.sign w), tally := none })) (w := w) rfl hw hn
      (lt_max_of_lt_right one_pos) (lt_max_of_lt_right one_pos)
  exact ⟨_, found, keys, reported, optimum, hloaded, hfound, hlists, hkeys, hascending,
    hlists.mem_iff⟩

/-- Two variables that reward each other's absence have two best assignments to list. -/
theorem DenseSession.search_lists_optima_of_rivals :
    let w := Matrix.generate 2 2 fun r c => if r = c then (1 : ℚ) else -2
    Dense.check w = .ok () ∧ w.rows ≤ Bits.maxPacked ∧
    ∃ (loaded found : DenseSession ℚ) (keys : List ℕ) (reported optimum : ℚ),
      DenseSession.new.setProblem w .maximize = .ok loaded ∧
      ((loaded.setTile (3 : ℕ)).setCap 4).search = .ok found ∧
      Lists .maximize (Bits.Assigns w.rows) (Dense.energy w) (max 4 1) found.energies
        found.solutions reported optimum ∧
      found.solutions.map Bits.packed? = keys.map some ∧ keys.Pairwise (· < ·) ∧
      (Separated (Bits.Assigns w.rows) (Dense.energy w) → found.solutions.length < max 4 1 →
        ∀ x, x ∈ found.solutions ↔ x.Assigns w.rows ∧ Dense.energy w x = .ok optimum) := by
  intro w
  have hw : Dense.check w = .ok () := Dense.check_of_isMirrored (by decide)
  have hn : w.rows ≤ Bits.maxPacked := by decide
  exact ⟨hw, hn, DenseSession.search_lists_optima DenseSession.new w .maximize 3 4 hw hn⟩

end Search

end Qubo

import Mathlib.Tactic
import Qubo.Proofs.Anneal.Restart
import Qubo.Proofs.Anneal.Store.Bipartite
import Qubo.Proofs.Anneal.Store.Dense
import Qubo.Proofs.Search.Bipartite
import Qubo.Proofs.Search.Dense
import Qubo.Proofs.Search.Store

/-! Complete runs start from scratch, for solvers of all four kinds: after any two histories that
have loaded the same problem last, they give the same and leave the same. -/
namespace Qubo

namespace Search
variable {F : Family} {α : Type} [Scalar α] [Enumerable F α] [Storable F α]

/-- Complete runs after two sequences of requests, of the sessions and in storage: they give and
leave the same, down to what is left behind of the search, and storage answers as the sessions. -/
structure StartsAfresh (tile : F.Tile) (requests requests' : List (Request F α)) : Prop where
  sessions : ((Session.new tile).run requests').solve = ((Session.new tile).run requests).solve
  storage : ∀ bound bound', ((Memory.new tile bound').run requests').solve =
    ((Memory.new tile bound).run requests).solve
  answers : ∀ bound, ((Memory.new tile bound).run requests).solve.2 =
    ((Session.new tile).run requests).solve.result

/-- An exhaustive solver starts from scratch, even in the middle of a search. -/
theorem startsAfresh [Bounded F α] (tile : F.Tile) {requests requests' : List (Request F α)}
    {p : F.Problem} {d : Direction} (hl : loaded requests = some (p, d))
    (hl' : loaded requests' = some (p, d))
    (htile : ((Session.new tile).run requests').tile = ((Session.new tile).run requests).tile)
    (hcap : ((Session.new tile).run requests').cap = ((Session.new tile).run requests).cap) :
    StartsAfresh tile requests requests' := by
  have hfollows {requests : List (Request F α)} (hl : loaded requests = some (p, d)) :
      Session.Follows (some (p, d)) ((Session.new tile).run requests) :=
    hl ▸ Session.follows_run_new tile requests
  obtain ⟨hp, hd⟩ := hfollows hl
  obtain ⟨hp', hd'⟩ := hfollows hl'
  have hview (bound : F.Tile) := Memory.view_run_new (α := α) tile bound
  constructor
  · exact Session.solve_congr hp hp' (hd'.trans hd.symm) htile hcap
  · intro bound bound'
    rw [← hview bound requests] at hp hd htile hcap
    rw [← hview bound' requests'] at hp' hd' htile hcap
    exact Memory.solve_congr hp hp' (hd'.trans hd.symm) htile hcap
  · intro bound
    rw [Memory.view_solve.2, hview bound requests]

end Search

/-- Complete runs do not depend on what was asked before. Two annealers of a graph family, with
whatever histories, that have loaded the same problem in the same direction last and are given the
same seed run an accepted schedule alike if it chooses the number of slices, or if neither has
chosen one or both the same; two exhaustive solvers do so without a seed, if their tiles and caps
are the same. -/
theorem solve_starts_from_scratch {α : Type} [Scalar α] [Transcendental α]
    (entropy entropy' : Random.Generator) :
    (∀ (requests requests' : List (Anneal.Request (Anneal.denseFamily α) α)) w d value
      (schedule : Schedule α), Anneal.loaded requests = some (w, d) →
      Anneal.loaded requests' = some (w, d) → schedule.validate = .ok () →
      schedule.trotters.isSome ∨ ((Anneal.Session.new entropy').run requests').trotters =
        ((Anneal.Session.new entropy).run requests).trotters →
      Anneal.StartsAfresh (Anneal.denseLayout α) schedule entropy entropy'
        (requests ++ [.seed value]) (requests' ++ [.seed value])) ∧
    (∀ (requests requests' : List (Anneal.Request (Anneal.bipartiteFamily α) α)) p d value
      (schedule : Schedule α), Anneal.loaded requests = some (p, d) →
      Anneal.loaded requests' = some (p, d) → schedule.validate = .ok () →
      schedule.trotters.isSome ∨ ((Anneal.Session.new entropy').run requests').trotters =
        ((Anneal.Session.new entropy).run requests).trotters →
      Anneal.StartsAfresh (Anneal.bipartiteLayout α) schedule entropy entropy'
        (requests ++ [.seed value]) (requests' ++ [.seed value])) ∧
    (∀ (tile : ℕ) (requests requests' : List (Search.Request (Search.denseFamily α) α)) w d,
      Search.loaded requests = some (w, d) → Search.loaded requests' = some (w, d) →
      ((Search.Session.new tile).run requests').tile =
        ((Search.Session.new tile).run requests).tile →
      ((Search.Session.new tile).run requests').cap =
        ((Search.Session.new tile).run requests).cap →
      Search.StartsAfresh tile requests requests') ∧
    ∀ (tile : ℕ × ℕ) (requests requests' : List (Search.Request (Search.bipartiteFamily α) α)) p d,
      Search.loaded requests = some (p, d) → Search.loaded requests' = some (p, d) →
      ((Search.Session.new tile).run requests').tile =
        ((Search.Session.new tile).run requests).tile →
      ((Search.Session.new tile).run requests').cap =
        ((Search.Session.new tile).run requests).cap →
      Search.StartsAfresh tile requests requests' := by
  refine ⟨?_, ?_, ?_, ?_⟩
  · intro requests requests' w d value schedule hl hl' hv htrotters
    exact Anneal.startsAfresh Anneal.faithful_dense entropy entropy' hl hl' value hv htrotters
  · intro requests requests' p d value schedule hl hl' hv htrotters
    exact Anneal.startsAfresh Anneal.faithful_bipartite entropy entropy' hl hl' value hv htrotters
  · intro tile requests requests' w d hl hl' htile hcap
    exact Search.startsAfresh tile hl hl' htile hcap
  · intro tile requests requests' p d hl hl' htile hcap
    exact Search.startsAfresh tile hl hl' htile hcap

/-- New solvers against used ones, on two variables of one layer and on three of two: the annealers
have taken steps since they were given the problem, the exhaustive solvers are amid a search. -/
theorem solve_starts_from_scratch_of_used :
    letI : Transcendental ℚ := ⟨id, id, id, id⟩
    let schedule : Schedule ℚ := { (.standard : Schedule ℚ) with trotters := some 2 }
    let w : Matrix ℚ := .fill 2 2 1
    let p : Bipartite.Coefficients ℚ := ⟨[0, 1], [1], .fill 1 2 1⟩
    let annealed : List (Anneal.Request (Anneal.denseFamily ℚ) ℚ) :=
      [.setProblem w .maximize, .setTrotters 3, .initAnneal, .annealOneStep 1 1]
    let annealed' : List (Anneal.Request (Anneal.bipartiteFamily ℚ) ℚ) :=
      [.setProblem p .minimize, .setX ⟨.ofValues [1, 0], .ofValues [1]⟩, .initAnneal]
    let searched : List (Search.Request (Search.denseFamily ℚ) ℚ) :=
      [.search, .setProblem w .maximize, .initSearch, .searchRange (1, 3)]
    let searched' : List (Search.Request (Search.bipartiteFamily ℚ) ℚ) :=
      [.setProblem p .minimize, .search, .initSearch, .searchRange ((0, 2), (1, 2))]
    (Anneal.loaded annealed = some (w, .maximize) ∧ Anneal.loaded annealed' = some (p, .minimize) ∧
      schedule.validate = .ok () ∧ schedule.trotters.isSome) ∧
    Anneal.StartsAfresh (Anneal.denseLayout ℚ) schedule (.ofSeed 0) (.ofSeed 1)
      [.setProblem w .maximize, .seed 7] (annealed ++ [.seed 7]) ∧
    Anneal.StartsAfresh (Anneal.bipartiteLayout ℚ) schedule (.ofSeed 0) (.ofSeed 1)
      [.setProblem p .minimize, .seed 7] (annealed' ++ [.seed 7]) ∧
    Search.StartsAfresh (1024 : ℕ) [.setProblem w .maximize] searched ∧
    Search.StartsAfresh (256, 256) [.setProblem p .minimize] searched' := by
  intro schedule w p annealed annealed' searched searched'
  let _ : Transcendental ℚ := ⟨id, id, id, id⟩
  have hw : Dense.check w = .ok () := Dense.check_of_isMirrored (by decide)
  have hp : p.check = .ok () := by decide
  have hv : schedule.validate = .ok () := Schedule.validate_eq_ok_iff.mpr (by decide +kernel)
  have hmodel := Dense.ising_eq_ok_iff.mpr ⟨hw, rfl⟩
  have hmodel' := Bipartite.Coefficients.ising_eq_ok_iff.mpr ⟨hp, rfl⟩
  have hcheck := Search.check_dense_iff.mpr ⟨hw, show w.rows ≤ Bits.maxPacked by decide⟩
  have hcheck' := Search.check_bipartite_iff.mpr
    ⟨hp, show p.b0.length ≤ Bits.maxPacked ∧ p.b1.length ≤ Bits.maxPacked by decide⟩
  have hl := Anneal.loaded_setProblem (F := Anneal.denseFamily ℚ) hmodel .maximize []
  have hl' := Anneal.loaded_setProblem (F := Anneal.bipartiteFamily ℚ) hmodel' .minimize []
  have hs := Search.loaded_setProblem (F := Search.denseFamily ℚ) hcheck .maximize []
  have hs' := Search.loaded_setProblem (F := Search.bipartiteFamily ℚ) hcheck' .minimize []
  obtain ⟨hdense, hbipartite, hsearch, hsearch'⟩ :=
    solve_starts_from_scratch (α := ℚ) (.ofSeed 0) (.ofSeed 1)
  refine ⟨⟨hl, hl', hv, rfl⟩, hdense _ annealed w _ 7 schedule hl hl hv (Or.inl rfl),
    hbipartite _ annealed' p _ 7 schedule hl' hl' hv (Or.inl rfl), ?_, ?_⟩
  · have hamid := Search.loaded_setProblem (F := Search.denseFamily ℚ) hcheck .maximize [.search]
    exact hsearch 1024 _ searched w .maximize hs hamid (by decide +kernel) (by decide +kernel)
  · exact hsearch' (256, 256) _ searched' p .minimize hs' hs' (by decide +kernel)
      (by decide +kernel)

end Qubo

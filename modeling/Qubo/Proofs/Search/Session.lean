import Mathlib.Tactic
import Qubo.Search.Session
import Qubo.Proofs.Search.Listing

/-! Exhaustive search as one pass: a search of the whole space is a single tally of the candidates
of all its regions, whatever the session was doing before. -/
namespace Qubo.Search
variable {F : Family} {α : Type} [Scalar α] [Enumerable F α]

/-- The candidates that a search of the whole space meets, in the order it meets them. -/
def visited (p : F.Problem) (tile : F.Tile) : List (F.Key × α) :=
  (Enumerable.regions p tile).flatMap (Enumerable.candidates p)

namespace Tally
variable {κ : Type}

theorem offerAll_append (cap : ℕ) (t : Tally κ α) (cs cs' : List (κ × α)) :
    t.offerAll cap (cs ++ cs') = (t.offerAll cap cs).offerAll cap cs' :=
  List.foldl_append

end Tally

namespace Session

omit [Scalar α] [Enumerable F α] in
theorem initSearch_eq_ok {s : Session F α} {p : F.Problem} (hp : s.problem = some p) :
    s.initSearch = .ok { s with tally := some .empty } := by
  simp only [initSearch, hp]

theorem searchRange_eq_ok {s : Session F α} {p : F.Problem} {t : Tally F.Key α}
    (hp : s.problem = some p) (ht : s.tally = some t) (region : F.Region) :
    s.searchRange region = .ok { s with
      tally := some (t.offerAll s.cap (Enumerable.candidates p region)) } := by
  simp only [searchRange, hp, ht]

/-- Regions that are searched one after the other add up. -/
theorem foldlM_searchRange {s : Session F α} {p : F.Problem} {t : Tally F.Key α}
    (hp : s.problem = some p) (ht : s.tally = some t) (regions : List F.Region) :
    regions.foldlM (fun s region => s.searchRange region) s = .ok { s with
      tally := some (t.offerAll s.cap (regions.flatMap (Enumerable.candidates p))) } := by
  induction regions generalizing s t with
  | nil =>
    have hs : s = { s with tally := some t } := by rw [← ht]
    exact congrArg Except.ok hs
  | cons region regions ih =>
    rw [List.foldlM_cons, searchRange_eq_ok hp ht, List.flatMap_cons, Tally.offerAll_append]
    exact ih hp rfl

theorem finSearch_eq {s : Session F α} {p : F.Problem} {t : Tally F.Key α}
    (hp : s.problem = some p) (ht : s.tally = some t) : s.finSearch = .ok { s with
      tally := none
      energies := t.least.elim [] fun e => List.replicate t.ties.size (s.direction.sign e)
      solutions := t.ties.toList.map (Enumerable.solution p) } := by
  simp only [finSearch, hp, ht]

/-- A search of the whole space publishes the tally of all it visits. -/
theorem search_eq {s : Session F α} {p : F.Problem} (hp : s.problem = some p) :
    s.search = finSearch { s with
      tally := some (Tally.empty.offerAll s.cap (visited p s.tile)) } := by
  have hrun := foldlM_searchRange (s := { s with tally := some .empty }) hp rfl
    (Enumerable.regions p s.tile)
  rw [search, initSearch_eq_ok hp]
  refine Eq.trans ?_ (congrArg (· >>= finSearch) hrun)
  simp only [bind, Except.bind, hp, Option.elim_some]

omit [Scalar α] in
theorem setProblem_eq_ok {p : F.Problem} (h : Enumerable.check p = .ok ()) (d : Direction)
    (s : Session F α) : s.setProblem p d = .ok { s with
      direction := d, problem := some (Enumerable.signed p d), tally := none } := by
  simp [setProblem, h, bind, Except.bind, pure, Except.pure]

end Session

/-- A search keeps its promise of any space whose assignments are the solutions of the keys it
visits, each of one key, with the energies it meets. -/
theorem Session.search_lists {F : Family} [Enumerable F ℚ] {s : Session F ℚ} {p : F.Problem}
    {keys : List F.Key} {value : F.Key → ℚ} {solution : F.Key → F.Solution}
    {space : F.Solution → Prop} {energy : F.Solution → Except SolverError ℚ}
    (hp : s.problem = some p) (hcap : 0 < s.cap)
    (hvisited : visited p s.tile = keys.map fun key => (key, value key))
    (hsolution : Enumerable.solution p = solution) (hne : keys ≠ [])
    (hkeys : Enumerates (keys.map solution) space)
    (henergy : ∀ key ∈ keys, energy (solution key) = .ok (s.direction.sign (value key))) :
    ∃ (found : Session F ℚ) (kept : List F.Key) (reported optimum : ℚ),
      s.search = .ok found ∧ found.direction = s.direction ∧
      found.solutions = kept.map solution ∧ kept.Sublist keys ∧
      Lists s.direction space energy s.cap found.energies found.solutions reported optimum := by
  subst hsolution
  have hmet : visited p s.tile ≠ [] := by
    rw [hvisited]
    simpa using hne
  obtain ⟨least, hsummary⟩ := Tally.summary_offerAll hcap hmet
  have hfound := (search_eq hp).trans (finSearch_eq (p := p) hp rfl)
  rw [hvisited] at hsummary hfound
  obtain ⟨hsublist, optimum, hlists⟩ := hsummary.lists hkeys henergy
  refine ⟨_, _, s.direction.sign least, optimum, hfound, rfl, rfl, hsublist, ?_⟩
  rw [hsummary.least_eq]
  exact hlists

end Qubo.Search

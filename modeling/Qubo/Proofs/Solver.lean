import Mathlib.Tactic
import Qubo.Solver
import Qubo.Proofs.Anneal.Bipartite
import Qubo.Proofs.Anneal.Dense
import Qubo.Proofs.Outcome
import Qubo.Proofs.Problem
import Qubo.Proofs.Search.Bipartite
import Qubo.Proofs.Search.Dense

/-! Complete runs of created solvers: an exhaustive one reports the energy of some assignment that
no other beats by more than the tolerance, an annealer the energy of some assignment. -/
namespace Qubo

namespace Search

private theorem zipWith_replicate_length {β γ δ : Type} (f : β → γ → δ) (b : β) (xs : List γ) :
    List.zipWith f (List.replicate xs.length b) xs = xs.map (f b) := by
  induction xs with
  | nil => rfl
  | cons x xs ih => simp [List.replicate_succ, ih]

/-- A complete run reports the energy that all listed assignments share. -/
theorem Session.exists_solve_eq_ok {F : Family} [Enumerable F ℚ] {s found : Session F ℚ}
    {d : Direction} {space : F.Solution → Prop} {energy : F.Solution → Except SolverError ℚ}
    {cap : ℕ} {reported optimum : ℚ} (hfound : s.search = .ok found)
    (hlists : Lists d space energy cap found.energies found.solutions reported optimum) :
    ∃ outcome, s.solve.result = .ok outcome ∧ outcome.bestEnergy = reported := by
  obtain ⟨x, rest, hsolutions, -⟩ := hlists.head
  have hcandidates : found.candidates =
      found.solutions.map fun y => ⟨reported, Enumerable.assignment y⟩ := by
    rw [Session.candidates, hlists.energies_eq, zipWith_replicate_length]
  obtain ⟨outcome, houtcome, hmem, -⟩ := Outcome.exists_collect_eq_ok found.direction
    found.candidates (by simp [hcandidates, hsolutions]) 0
  rw [hcandidates] at hmem
  obtain ⟨y, -, hy⟩ := List.mem_map.mp hmem
  refine ⟨outcome, ?_, (congrArg Keyed.key hy).symm⟩
  rw [Session.solve, hfound]
  exact houtcome

end Search

namespace Anneal

/-- A complete run reports the energy of one of the slices. -/
theorem Session.exists_solve_eq_ok {F : Family} [Annealable F ℚ] {s s' : Session F ℚ}
    {schedule : Schedule ℚ} (h : s.anneal schedule = .ok s') (hne : s'.readings ≠ []) :
    ∃ outcome, (s.solve schedule).result = .ok outcome ∧
      ∃ r ∈ s'.readings, outcome.bestEnergy = r.energy := by
  obtain ⟨outcome, houtcome, hmem, -⟩ := Outcome.exists_collect_eq_ok s'.direction
    s'.candidates (by simpa [Session.candidates] using hne) schedule.stepCount
  obtain ⟨r, hr, hkey⟩ := List.mem_map.mp hmem
  refine ⟨outcome, ?_, r, hr, (congrArg Keyed.key hkey).symm⟩
  rw [Session.solve, h]
  exact houtcome

end Anneal

namespace Solver

section
variable {α : Type} [Scalar α] [Transcendental α]

theorem create_eq_ok {entropy : Random.Generator}
    {p : Problem α} {strategy : Strategy} {d : Direction} {solver : Solver α}
    (h : load entropy p strategy d = .ok solver) : create entropy p.graph strategy p d =
      .ok (solver, .created p.graph strategy d p.variableCount) := by
  simp [create, h, bind, Except.bind, pure, Except.pure]

theorem load_of_create {entropy : Random.Generator} {graph : Graph} {strategy : Strategy}
    {p : Problem α} {d : Direction} {solver : Solver α} {event : SolverEvent α}
    (h : create entropy graph strategy p d = .ok (solver, event)) :
    load entropy p strategy d = .ok solver ∧
      event = .created graph strategy d p.variableCount := by
  unfold create at h
  split at h
  · cases h
  · obtain ⟨solver', hload, h⟩ := Result.bind_eq_ok_iff.mp h
    obtain ⟨rfl, rfl⟩ := Prod.mk.inj (Except.ok.inj h)
    exact ⟨hload, rfl⟩

/-- An exhaustive solver only takes problems that can be packed. -/
theorem isPackable_of_load {entropy : Random.Generator} {p : Problem α} {d : Direction}
    {solver : Solver α} (h : load entropy p .bruteForce d = .ok solver) : p.IsPackable := by
  cases p with
  | dense w =>
    obtain ⟨s, hs, -⟩ := Result.exists_of_map_eq_ok h
    obtain ⟨u, hcheck, -⟩ := Result.bind_eq_ok_iff.mp hs
    exact (Search.check_dense_iff.mp hcheck).2
  | bipartite p =>
    obtain ⟨s, hs, -⟩ := Result.exists_of_map_eq_ok h
    obtain ⟨u, hcheck, -⟩ := Result.bind_eq_ok_iff.mp hs
    exact (Search.check_bipartite_iff.mp hcheck).2

end

variable [Transcendental ℚ]

/-- The exhaustive solver of an exact problem that can be packed. -/
theorem exists_search (entropy : Random.Generator) {p : Problem ℚ} (hexact : p.IsExact)
    (hpack : p.IsPackable) (d : Direction) (seed : UInt64) (schedule : Schedule ℚ) :
    ∃ solver event outcome, create entropy p.graph .bruteForce p d = .ok (solver, event) ∧
      ((solver.seed seed).solve schedule).result = .ok outcome ∧
      p.IsAttained outcome.bestEnergy ∧ p.IsNearOptimal d outcome.bestEnergy := by
  cases p with
  | dense w =>
    have hw := Dense.check_of_isMirrored hexact
    have hloaded := Search.Session.setProblem_eq_ok (F := Search.denseFamily ℚ)
      (Search.check_dense_iff.mpr ⟨hw, hpack⟩) d Search.DenseSession.new
    obtain ⟨found, -, reported, optimum, hfound, -, -, -, hlists⟩ :=
      Search.DenseSession.search_lists (s := { Search.DenseSession.new with
        direction := d, problem := some (d.sign w), tally := none }) rfl hw hpack
        (Nat.succ_pos 1023) (Nat.succ_pos 1023)
    obtain ⟨outcome, houtcome, henergy⟩ := Search.Session.exists_solve_eq_ok hfound hlists
    refine ⟨_, _, outcome, create_eq_ok (congrArg (Except.map denseSearch) hloaded), houtcome,
      ?_, ?_⟩
    · obtain ⟨x, hx, hreported⟩ := hlists.exists_head
      exact ⟨.dense x, hx, henergy ▸ hreported⟩
    · rintro e' ⟨x, hx, he'⟩
      cases x with
      | dense x => exact henergy ▸ hlists.sign_sub_le hx he'
      | bipartite x => exact hx.elim
  | bipartite p =>
    have hp : p.check = .ok () := hexact
    have hloaded := Search.Session.setProblem_eq_ok (F := Search.bipartiteFamily ℚ)
      (Search.check_bipartite_iff.mpr ⟨hp, hpack⟩) d Search.BipartiteSession.new
    obtain ⟨found, reported, optimum, hfound, -, hlists⟩ :=
      Search.BipartiteSession.search_lists (s := { Search.BipartiteSession.new with
        direction := d, problem := some (p.signed d), tally := none }) rfl hp hpack.1 hpack.2
        (Nat.succ_pos 255) (Nat.succ_pos 255) (Nat.succ_pos 1023)
    obtain ⟨outcome, houtcome, henergy⟩ := Search.Session.exists_solve_eq_ok hfound hlists
    refine ⟨_, _, outcome, create_eq_ok (congrArg (Except.map bipartiteSearch) hloaded), houtcome,
      ?_, ?_⟩
    · obtain ⟨x, hx, hreported⟩ := hlists.exists_head
      exact ⟨.bipartite x, hx, henergy ▸ hreported⟩
    · rintro e' ⟨x, hx, he'⟩
      cases x with
      | dense x => exact hx.elim
      | bipartite x => exact henergy ▸ hlists.sign_sub_le hx he'

/-- An annealer of an exact problem, under an accepted schedule. -/
theorem exists_anneal (entropy : Random.Generator) {p : Problem ℚ} (hexact : p.IsExact)
    (d : Direction) (seed : UInt64) {schedule : Schedule ℚ} (hv : schedule.validate = .ok ()) :
    ∃ solver event outcome, create entropy p.graph .anneal p d = .ok (solver, event) ∧
      ((solver.seed seed).solve schedule).result = .ok outcome ∧
      p.IsAttained outcome.bestEnergy := by
  cases p with
  | dense w =>
    have hw : w.IsMirrored := hexact
    have hmodel := Dense.ising_eq_ok_iff.mpr ⟨Dense.check_of_isMirrored hw, rfl⟩
    obtain ⟨fresh, t, s', hfresh, hs', ht, hsound, hfollows⟩ := Anneal.Session.exists_anneal_of_new
      (Anneal.steady_fitsDense.and Anneal.steady_allSpins_dense) entropy hmodel d seed hv
    obtain ⟨w', d', hl, -, hne, henergy⟩ := Anneal.energy_readings_dense hfollows hsound ht
    obtain ⟨rfl, rfl⟩ := Prod.mk.inj (Option.some.inj hl)
    obtain ⟨outcome, houtcome, r, hr, hbest⟩ := Anneal.Session.exists_solve_eq_ok hs' hne
    refine ⟨_, _, outcome, create_eq_ok (congrArg (Except.map denseAnneal) hfresh), houtcome, ?_⟩
    exact ⟨.dense r.solution, (henergy hw r hr).1, hbest ▸ (henergy hw r hr).2⟩
  | bipartite p =>
    have hp : p.check = .ok () := hexact
    have hmodel := Bipartite.Coefficients.ising_eq_ok_iff.mpr ⟨hp, rfl⟩
    obtain ⟨fresh, t, s', hfresh, hs', ht, hsound, hfollows⟩ := Anneal.Session.exists_anneal_of_new
      (Anneal.steady_fitsLayers.and Anneal.steady_allSpins_bipartite) entropy hmodel d seed hv
    obtain ⟨p', d', hl, -, hne, henergy⟩ := Anneal.energy_readings_bipartite hfollows hsound ht
    obtain ⟨rfl, rfl⟩ := Prod.mk.inj (Option.some.inj hl)
    obtain ⟨outcome, houtcome, r, hr, hbest⟩ := Anneal.Session.exists_solve_eq_ok hs' hne
    refine ⟨_, _, outcome, create_eq_ok (congrArg (Except.map bipartiteAnneal) hfresh), houtcome,
      ?_⟩
    exact ⟨.bipartite r.solution, (henergy r hr).1, hbest ▸ (henergy r hr).2⟩

end Solver

end Qubo

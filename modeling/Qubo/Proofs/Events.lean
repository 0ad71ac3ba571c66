import Mathlib.Tactic
import Qubo.Solver
import Qubo.Proofs.Anneal.Trotters
import Qubo.Proofs.Schedule.Decay
import Qubo.Proofs.Search.Run
import Qubo.Proofs.Solver

/-! What a solver leaves in the log: its creation, and the end of each complete run. The numbers in
these events are words wherever those of the problem and of the schedule are. -/
namespace Qubo
variable {α : Type}

def SolverEvent.HasWords : SolverEvent α → Prop
  | .created _ _ _ count => count < UInt64.size
  | .searched extent _ _ optima => extent.variableCount < UInt64.size ∧ optima < UInt64.size
  | .annealed extent _ trotters _ => extent.variableCount < UInt64.size ∧ trotters < UInt64.size

/-- The strategy of the run that an event has ended. -/
def SolverEvent.solvedBy? : SolverEvent α → Option Strategy
  | .created .. => none
  | .searched .. => some .bruteForce
  | .annealed .. => some .anneal

theorem Outcome.steps_of_collect [LT α] [DecidableLT α] {d : Direction}
    {candidates : List (Keyed α Assignment)} {steps : ℕ} {outcome : Outcome α}
    (h : collect d candidates steps = .ok outcome) : outcome.steps = steps := by
  unfold collect at h
  split at h
  · cases h
  · obtain rfl := Except.ok.inj h
    rfl

theorem Schedule.length_fieldsFrom_le [Scalar α] (s : Schedule α) (n : ℕ) (g : α) :
    (s.fieldsFrom n g).length ≤ n := by
  induction n generalizing g with
  | zero => exact le_rfl
  | succ n ih =>
    rw [fieldsFrom]
    split
    · exact Nat.succ_le_succ (ih _)
    · exact Nat.zero_le _

/-- As many floats as there are above the end value are fewer than there are words. -/
theorem Schedule.stepCount_lt {s : Schedule Float} (hv : s.validate = .ok ()) :
    s.stepCount < UInt64.size := by
  have hlength : s.stepCount ≤ Float64.rank s.gStart - Float64.rank s.gEnd + 1 :=
    s.length_fieldsFrom_le _ _
  have hend := rank_pos (validate_eq_ok_iff.mp hv).1
  have hstart : Float64.rank s.gStart < UInt64.size := Float64.rank_lt _
  have hone : 1 < UInt64.size := by decide
  omega

namespace Search.Session
variable [Scalar α] {F : Family} [Enumerable F α] {s : Session F α}

theorem exists_event_of_solve {p : F.Problem} (hp : s.problem = some p) (hcap : 0 < s.cap) :
    ∃ best optima, s.solve.events = [.searched (Enumerable.extent p) s.direction best optima] ∧
      optima ≤ s.cap := by
  have hevents {found : Session F α} (h : s.search = .ok found) :
      s.solve.events = [found.event] := by
    rw [solve, h]
  let t := Tally.empty.offerAll s.cap (visited p s.tile)
  refine ⟨(t.least.elim [] fun e => List.replicate t.ties.size (s.direction.sign e)).head?,
    t.ties.size, ?_, ?_⟩
  · rw [hevents (search_eq_ok hp)]
    simp [event, hp, t]
  · exact Tally.size_ties_offerAll hcap le_rfl (Nat.zero_le _) _

/-- A new solver that has been given a problem keeps no more optima than it is told otherwise. -/
theorem exists_event_of_setProblem {tile : F.Tile} {p : F.Problem} {d : Direction}
    (h : (new tile).setProblem p d = .ok s) :
    ∃ best optima, s.solve.events =
        [.searched (Enumerable.extent (Enumerable.signed p d)) d best optima] ∧
      optima ≤ defaultCap := by
  obtain ⟨-, -, h⟩ := Result.bind_eq_ok_iff.mp h
  obtain rfl := Except.ok.inj h
  exact exists_event_of_solve rfl (show 0 < defaultCap by decide)

theorem steps_of_solve {outcome : Outcome α} (h : s.solve.result = .ok outcome) :
    outcome.steps = 0 := by
  unfold solve at h
  split at h
  · cases h
  · exact Outcome.steps_of_collect h

end Search.Session

namespace Anneal.Session
variable [Scalar α] {F : Family} [Annealable F α] {s : Session F α} {schedule : Schedule α}

theorem exists_event_of_solve {model : F.Model} (hmodel : s.model = some model)
    (hfresh : s.trotters = none) {outcome : Outcome α}
    (h : (s.solve schedule).result = .ok outcome) :
    ∃ best, (s.solve schedule).events = [.annealed (Annealable.extent model) s.direction
      (schedule.trotters.getD (defaultTrotters (Annealable.extent model).variableCount)) best] := by
  unfold solve at h ⊢
  split at h
  · cases h
  next s' hs' =>
    obtain ⟨model', hmodel', hslices⟩ := slices_anneal hfresh hs'
    obtain rfl := Option.some.inj (hmodel'.symm.trans hmodel)
    obtain ⟨hkept, hdirection⟩ := (stable_frame (F := F) (α := α) fun model d =>
      model = s.model ∧ d = s.direction).anneal ⟨rfl, rfl⟩ hs'
    refine ⟨s'.direction.best? s'.energies, ?_⟩
    rw [event, hkept, hmodel, hslices, hdirection]
    rfl

theorem exists_event_of_setProblem {entropy : Random.Generator} {p : F.Problem} {d : Direction}
    (hs : (new entropy).setProblem p d = .ok s) {seed : UInt64} {outcome : Outcome α}
    (h : ((s.seed seed).solve schedule).result = .ok outcome) :
    ∃ model, Annealable.model p = .ok model ∧
      let extent := Annealable.extent (Annealable.signed model d)
      ∃ best, ((s.seed seed).solve schedule).events = [.annealed extent d
        (schedule.trotters.getD (defaultTrotters extent.variableCount)) best] := by
  obtain ⟨model, hmodel, rfl⟩ := setProblem_eq_ok_iff.mp hs
  exact ⟨model, hmodel, exists_event_of_solve (s := Session.seed seed _) rfl rfl h⟩

theorem steps_of_solve {outcome : Outcome α} (h : (s.solve schedule).result = .ok outcome) :
    outcome.steps = schedule.stepCount := by
  unfold solve at h
  split at h
  · cases h
  · exact Outcome.steps_of_collect h

end Anneal.Session

namespace Solver
variable [Scalar α] [Transcendental α]

theorem steps_of_solve {solver : Solver α} {schedule : Schedule α} {outcome : Outcome α}
    (h : (solver.solve schedule).result = .ok outcome) : outcome.steps ≤ schedule.stepCount := by
  cases solver with
  | denseSearch s => exact (Search.Session.steps_of_solve h).trans_le (Nat.zero_le _)
  | bipartiteSearch s => exact (Search.Session.steps_of_solve h).trans_le (Nat.zero_le _)
  | denseAnneal s => exact (Anneal.Session.steps_of_solve h).le
  | bipartiteAnneal s => exact (Anneal.Session.steps_of_solve h).le

/-- A solver that has been created for a problem ends a run with one event of its own kind. -/
theorem exists_event_of_load {entropy : Random.Generator} {p : Problem α} {strategy : Strategy}
    {d : Direction} {solver : Solver α} (hload : load entropy p strategy d = .ok solver)
    (hcount : p.variableCount < UInt64.size) {schedule : Schedule α}
    (htrotters : ∀ n, schedule.trotters = some n → n < UInt64.size) (seed : UInt64)
    {outcome : Outcome α} (h : ((solver.seed seed).solve schedule).result = .ok outcome) :
    ∃ e, ((solver.seed seed).solve schedule).events = [e] ∧ e.solvedBy? = some strategy ∧
      e.HasWords := by
  have hsearched {extent : Extent} {optima : ℕ} (hextent : extent.variableCount = p.variableCount)
      (hoptima : optima ≤ Search.defaultCap) :
      extent.variableCount < UInt64.size ∧ optima < UInt64.size :=
    ⟨hextent ▸ hcount, hoptima.trans_lt (by decide)⟩
  have hannealed {extent : Extent} (hextent : extent.variableCount = p.variableCount) :
      extent.variableCount < UInt64.size ∧
        schedule.trotters.getD (Anneal.defaultTrotters extent.variableCount) < UInt64.size := by
    refine ⟨hextent ▸ hcount, ?_⟩
    cases hasked : schedule.trotters with
    | none =>
      rw [Option.getD_none, Anneal.defaultTrotters, hextent]
      exact max_lt ((Nat.div_le_self _ 4).trans_lt hcount) (by decide)
    | some n => exact htrotters n hasked
  cases p with
  | dense w =>
    cases strategy with
    | bruteForce =>
      obtain ⟨s, hs, rfl⟩ := Result.exists_of_map_eq_ok hload
      obtain ⟨best, optima, hevents, hoptima⟩ := Search.Session.exists_event_of_setProblem hs
      exact ⟨_, hevents, rfl, hsearched (by cases d <;> rfl) hoptima⟩
    | anneal =>
      obtain ⟨s, hs, rfl⟩ := Result.exists_of_map_eq_ok hload
      obtain ⟨model, hmodel, best, hevents⟩ := Anneal.Session.exists_event_of_setProblem hs h
      exact ⟨_, hevents, rfl, hannealed (Anneal.variableCount_dense w model d hmodel)⟩
  | bipartite p =>
    cases strategy with
    | bruteForce =>
      obtain ⟨s, hs, rfl⟩ := Result.exists_of_map_eq_ok hload
      obtain ⟨best, optima, hevents, hoptima⟩ := Search.Session.exists_event_of_setProblem hs
      refine ⟨_, hevents, rfl, hsearched ?_ hoptima⟩
      show (p.signed d).b0.length + (p.signed d).b1.length = _
      simp [Bipartite.Coefficients.signed, Problem.variableCount]
    | anneal =>
      obtain ⟨s, hs, rfl⟩ := Result.exists_of_map_eq_ok hload
      obtain ⟨model, hmodel, best, hevents⟩ := Anneal.Session.exists_event_of_setProblem hs h
      exact ⟨_, hevents, rfl, hannealed (Anneal.variableCount_bipartite p model d hmodel)⟩

end Solver

end Qubo

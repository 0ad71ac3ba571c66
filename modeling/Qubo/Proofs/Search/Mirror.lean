import Mathlib.Tactic
import Qubo.Proofs.Negation
import Qubo.Proofs.Result
import Qubo.Proofs.Search.Session

/-! Exhaustive search of a problem and of its negation in the opposite direction: at every request
the two sessions do the same, but for the sign of the energies that they publish. -/
namespace Qubo.Search
variable {F : Family}

/-- The same request, with every problem negated and its direction turned around. -/
def Request.mirror (negate : F.Problem → F.Problem) : Request F ℚ → Request F ℚ
  | .setProblem p d => .setProblem (negate p) d.opposite
  | r => r

/-- The session of the negated problem: without a problem, new sessions have one direction. -/
def Session.mirror (s : Session F ℚ) : Session F ℚ :=
  { s with
    direction := if s.problem.isSome then s.direction.opposite else s.direction
    energies := s.energies.map (-·) }

variable [Enumerable F ℚ]

/-- A negated problem is accepted like the problem itself, and its form with the opposite sign is
that of the problem. -/
structure IsNegation (negate : F.Problem → F.Problem) : Prop where
  check : ∀ p, Enumerable.check (negate p) = Enumerable.check p
  signed : ∀ p d, Enumerable.signed (negate p) d.opposite = Enumerable.signed p d

namespace Session
variable {negate : F.Problem → F.Problem} (s : Session F ℚ)

theorem setProblem_mirror (h : IsNegation negate) (p : F.Problem) (d : Direction) :
    s.mirror.setProblem (negate p) d.opposite = (s.setProblem p d).map mirror := by
  unfold setProblem
  rw [h.check, h.signed]
  cases Enumerable.check p with
  | error e => rfl
  | ok u => rfl

omit [Enumerable F ℚ] in
theorem initSearch_mirror : s.mirror.initSearch = s.initSearch.map mirror := by
  unfold initSearch mirror
  cases s.problem <;> rfl

theorem searchRange_mirror (region : F.Region) :
    s.mirror.searchRange region = (s.searchRange region).map mirror := by
  unfold searchRange mirror
  cases s.tally <;> cases s.problem <;> rfl

theorem finSearch_mirror : s.mirror.finSearch = s.finSearch.map mirror := by
  unfold finSearch mirror
  cases s.tally with
  | none => rfl
  | some t =>
    cases hp : s.problem with
    | none => rfl
    | some p =>
      have henergies : (t.least.elim [] fun e => List.replicate t.ties.size
          (s.direction.opposite.sign e)) = (t.least.elim [] fun e =>
            List.replicate t.ties.size (s.direction.sign e)).map (-·) := by
        cases t.least with
        | none => rfl
        | some e =>
          rw [Option.elim_some, Option.elim_some, List.map_replicate, s.direction.sign_opposite]
      simp [Except.map, henergies]

theorem search_mirror : s.mirror.search = s.search.map mirror := by
  refine Result.bind_eq_map (initSearch_mirror s) fun t _ => ?_
  exact Result.bind_eq_map (Result.foldlM_eq_map (fun u region => searchRange_mirror u region) _ t)
    fun u _ => finSearch_mirror u

theorem isSome_problem_of_search {s' : Session F ℚ} (h : s.search = .ok s') :
    s'.problem.isSome := by
  cases hp : s.problem with
  | none => simp [search, initSearch, hp, bind, Except.bind] at h
  | some p =>
    obtain rfl := Except.ok.inj ((search_eq hp).symm.trans h |>.symm.trans (finSearch_eq hp rfl))
    simp [hp]

theorem candidates_mirror : s.mirror.candidates = s.candidates.map Keyed.negate := by
  simp only [candidates, mirror, List.zipWith_map_left, List.map_zipWith]
  rfl

theorem solve_mirror : s.mirror.solve.solver = s.solve.solver.mirror ∧
    s.mirror.solve.result = s.solve.result.map Outcome.negate := by
  unfold solve
  rw [search_mirror]
  cases hs : s.search with
  | error e => exact ⟨rfl, rfl⟩
  | ok s' =>
    refine ⟨rfl, ?_⟩
    have hd : s'.mirror.direction = s'.direction.opposite :=
      if_pos (isSome_problem_of_search s hs)
    show Outcome.collect s'.mirror.direction s'.mirror.candidates 0 = _
    rw [hd, candidates_mirror, Outcome.collect_negate]

omit [Enumerable F ℚ] in
theorem keep_mirror {e e' : Except SolverError (Session F ℚ)} (he : e' = e.map mirror) :
    step.keep s.mirror e' = ((step.keep s e).1.mirror,
      (step.keep s e).2.map (Option.map Outcome.negate)) := by
  subst he
  cases e <;> rfl

theorem step_mirror (h : IsNegation negate) (r : Request F ℚ) :
    s.mirror.step (r.mirror negate) =
      ((s.step r).1.mirror, (s.step r).2.map (Option.map Outcome.negate)) := by
  cases r with
  | setProblem p d => exact keep_mirror s (setProblem_mirror s h p d)
  | setTile tile => rfl
  | setCap cap => rfl
  | initSearch => exact keep_mirror s (initSearch_mirror s)
  | searchRange region => exact keep_mirror s (searchRange_mirror s region)
  | finSearch => exact keep_mirror s (finSearch_mirror s)
  | search => exact keep_mirror s (search_mirror s)
  | seed value => rfl
  | solve schedule =>
    obtain ⟨hsolver, hresult⟩ := solve_mirror s
    refine Prod.ext hsolver ?_
    show s.mirror.solve.result.map some = (s.solve.result.map some).map _
    rw [hresult]
    cases s.solve.result <;> rfl

theorem run_mirror (h : IsNegation negate) (requests : List (Request F ℚ)) :
    s.mirror.run (requests.map (Request.mirror negate)) = (s.run requests).mirror := by
  rw [run, List.foldl_map]
  exact List.foldl_hom mirror fun t r => congrArg Prod.fst (step_mirror t h r)

/-- A session that is given every problem negated and in the opposite direction answers each request
like the one that is given the problems themselves: it fails with the same error or has the same
outcome but for the sign of its energies, and so it is with everything the two hold. -/
def AnswersMirrored (negate : F.Problem → F.Problem) (s : Session F ℚ) : Prop :=
  ∀ (requests : List (Request F ℚ)) (r : Request F ℚ),
    (s.run (requests.map (Request.mirror negate))).step (r.mirror negate) =
      (((s.run requests).step r).1.mirror,
        ((s.run requests).step r).2.map (Option.map Outcome.negate))

theorem answersMirrored (h : IsNegation negate) (hs : s.mirror = s) :
    s.AnswersMirrored negate := by
  intro requests r
  have hrun := run_mirror s h requests
  rw [hs] at hrun
  rw [hrun]
  exact step_mirror (s.run requests) h r

end Session

end Qubo.Search

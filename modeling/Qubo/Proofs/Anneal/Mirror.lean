import Mathlib.Tactic
import Qubo.Proofs.Anneal.Run
import Qubo.Proofs.Negation

/-! Annealing of a problem and of its negation in the opposite direction: at every request the two
sessions draw the same numbers and turn the same spins, and what they read out differs in the sign
of the energies alone. -/
namespace Qubo.Anneal
variable {F : Family}

/-- The same reading, with the energy negated. -/
def Reading.negate (r : Reading F ℚ) : Reading F ℚ := { r with energy := -r.energy }

/-- The same request, with every problem negated and its direction turned around. -/
def Request.mirror (negate : F.Problem → F.Problem) : Request F ℚ → Request F ℚ
  | .setProblem p d => .setProblem (negate p) d.opposite
  | r => r

/-- The session of the negated problem: without a problem, new sessions have one direction. -/
def Session.mirror (s : Session F ℚ) : Session F ℚ :=
  { s with
    direction := if s.model.isSome then s.direction.opposite else s.direction
    readings := s.readings.map Reading.negate }

variable [Annealable F ℚ]

/-- The spin form of a negated problem with the opposite sign is that of the problem, or fails as
it does; a reading in the opposite direction has the negated energy. -/
structure IsNegation (negate : F.Problem → F.Problem) : Prop where
  model : ∀ p d, (Annealable.model (negate p)).map (Annealable.signed · d.opposite) =
    (Annealable.model p).map (Annealable.signed · d)
  read : ∀ (model : F.Model) d q k,
    Annealable.read model (Direction.opposite d) q k = (Annealable.read model d q k).negate

namespace Session
variable {negate : F.Problem → F.Problem} (s : Session F ℚ)

theorem setProblem_mirror (h : IsNegation negate) (p : F.Problem) (d : Direction) :
    s.mirror.setProblem (negate p) d.opposite = (s.setProblem p d).map mirror := by
  have hmodel := h.model p d
  unfold setProblem
  cases hp : Annealable.model p with
  | error e =>
    rw [hp] at hmodel
    cases hq : Annealable.model (negate p) with
    | error e' =>
      rw [hq] at hmodel
      exact congrArg Except.error (Except.error.inj hmodel)
    | ok model' =>
      rw [hq] at hmodel
      cases hmodel
  | ok model =>
    rw [hp] at hmodel
    cases hq : Annealable.model (negate p) with
    | error e' =>
      rw [hq] at hmodel
      cases hmodel
    | ok model' =>
      rw [hq] at hmodel
      have hsigned : Annealable.signed model' d.opposite = Annealable.signed model d :=
        Except.ok.inj hmodel
      simp [bind, Except.bind, pure, Except.pure, Except.map, mirror, hsigned]

omit [Annealable F ℚ] in
theorem setTrotters_mirror (count : ℕ) :
    s.mirror.setTrotters count = (s.setTrotters count).map mirror := by
  unfold setTrotters
  by_cases hcount : count = 0
  · rw [if_pos hcount, if_pos hcount]
    rfl
  · rw [if_neg hcount, if_neg hcount]
    unfold mirror
    cases s.model <;> rfl

theorem ensureTrotters_mirror (model : F.Model) :
    s.mirror.ensureTrotters model = (s.ensureTrotters model).mirror := by
  have htrotters : s.mirror.trotters = s.trotters := rfl
  unfold ensureTrotters
  rw [htrotters]
  cases s.trotters <;> rfl

theorem drawSpins_mirror (model : F.Model) :
    s.mirror.drawSpins model = (s.drawSpins model).mirror := by
  rw [drawSpins_eq, drawSpins_eq, ensureTrotters_mirror]
  rfl

theorem setX_mirror (x : F.Solution) : s.mirror.setX x = (s.setX x).map mirror := by
  have hmirror : s.mirror.model = s.model := rfl
  unfold setX
  rw [hmirror]
  cases s.model with
  | none => rfl
  | some model =>
    refine Result.bind_eq_map (g := id) (by cases Annealable.checkStart model x <;> rfl)
      fun u _ => ?_
    rw [ensureTrotters_mirror]
    rfl

theorem randomize_mirror : s.mirror.randomize = s.randomize.map mirror := by
  have hmirror : s.mirror.model = s.model := rfl
  unfold randomize
  rw [hmirror]
  cases s.model with
  | none => rfl
  | some model => exact congrArg Except.ok (drawSpins_mirror s model)

theorem initAnneal_mirror : s.mirror.initAnneal = s.initAnneal.map mirror := by
  cases hmodel : s.model with
  | none =>
    have hmirror : s.mirror.model = none := hmodel
    simp [initAnneal, hmodel, hmirror, Except.map]
  | some model =>
    have hensure : ensureTrotters model { s.mirror with rng := some s.mirror.generator } =
        (ensureTrotters model { s with rng := some s.generator }).mirror :=
      ensureTrotters_mirror { s with rng := some s.generator } model
    have hinit := initAnneal_eq_ok_iff.mpr ⟨model, _, hmodel, rfl, rfl⟩
    have hinit' := initAnneal_eq_ok_iff (s := s.mirror).mpr ⟨model, _, hmodel, rfl, rfl⟩
    rw [hinit, hinit', hensure]
    generalize ensureTrotters model { s with rng := some s.generator } = t
    refine congrArg Except.ok ?_
    have hspins : t.mirror.spins = t.spins := rfl
    rw [hspins]
    split_ifs
    · rfl
    · rw [drawSpins_mirror]
      rfl

theorem annealOneStep_mirror (g kt : ℚ) :
    s.mirror.annealOneStep g kt = (s.annealOneStep g kt).map mirror := by
  unfold annealOneStep mirror
  cases s.prepared <;> cases s.model <;> cases s.rng <;> cases s.spins <;> rfl

theorem finAnneal_mirror (h : IsNegation negate) :
    s.mirror.finAnneal = s.finAnneal.map mirror := by
  have hmirror : s.mirror.model = s.model := rfl
  have hspins : s.mirror.spins = s.spins := rfl
  have hprepared : s.mirror.prepared = s.prepared := rfl
  by_cases hready : s.prepared = true ∧ s.model.isSome ∧ s.spins.isSome
  · obtain ⟨hp, hm, hq⟩ := hready
    obtain ⟨model, hm⟩ := Option.isSome_iff_exists.mp hm
    obtain ⟨q, hq⟩ := Option.isSome_iff_exists.mp hq
    have hfin := finAnneal_eq_ok_iff.mpr ⟨model, q, hp, hm, hq, rfl⟩
    have hfin' := finAnneal_eq_ok_iff (s := s.mirror).mpr ⟨model, q, hp, hm, hq, rfl⟩
    have hd : s.mirror.direction = s.direction.opposite := if_pos (by simp [hm])
    have hread : (List.range s.slices).map (Annealable.read model s.mirror.direction q) =
        ((List.range s.slices).map (Annealable.read model s.direction q)).map Reading.negate := by
      rw [hd, List.map_map]
      exact List.map_congr_left fun k _ => h.read model s.direction q k
    rw [hfin, hfin']
    exact congrArg (fun readings => Except.ok { s.mirror with readings := readings }) hread
  · unfold finAnneal
    rw [hmirror, hspins, hprepared]
    cases hp : s.prepared <;> cases hm : s.model <;> cases hq : s.spins <;>
      first | rfl | exact absurd ⟨hp, by simp [hm], by simp [hq]⟩ hready

omit [Annealable F ℚ] in
theorem adoptTrotters_mirror (requested : Option ℕ) :
    s.mirror.adoptTrotters requested = (s.adoptTrotters requested).map mirror := by
  cases requested with
  | none => rfl
  | some count => exact setTrotters_mirror s count

theorem anneal_mirror (h : IsNegation negate) (schedule : Schedule ℚ) :
    s.mirror.anneal schedule = (s.anneal schedule).map mirror := by
  rw [anneal_eq, anneal_eq]
  refine Result.bind_eq_map (g := id) (by cases schedule.validate <;> rfl) fun _ _ => ?_
  refine Result.bind_eq_map (adoptTrotters_mirror s schedule.trotters) fun t _ => ?_
  refine Result.bind_eq_map (randomize_mirror t) fun t _ => ?_
  refine Result.bind_eq_map (initAnneal_mirror t) fun t _ => ?_
  exact Result.bind_eq_map
    (Result.foldlM_eq_map (fun t g => annealOneStep_mirror t g schedule.kt) _ t)
    fun t _ => finAnneal_mirror t h

theorem candidates_mirror : s.mirror.candidates = s.candidates.map Keyed.negate := by
  simp only [candidates, mirror, List.map_map]
  rfl

theorem solve_mirror (h : IsNegation negate) (schedule : Schedule ℚ) :
    (s.mirror.solve schedule).solver = (s.solve schedule).solver.mirror ∧
      (s.mirror.solve schedule).result = (s.solve schedule).result.map Outcome.negate := by
  unfold solve
  rw [anneal_mirror s h]
  cases hs : s.anneal schedule with
  | error e => exact ⟨rfl, rfl⟩
  | ok s' =>
    refine ⟨rfl, ?_⟩
    obtain ⟨t, hfin, -⟩ := exists_finAnneal_of_anneal hs
    obtain ⟨model, q, -, hmodel, -, rfl⟩ := finAnneal_eq_ok_iff.mp hfin
    generalize hs' : ({ t with readings := _ } : Session F ℚ) = s'
    have hd : s'.mirror.direction = s'.direction.opposite := if_pos (by simp [← hs', hmodel])
    show Outcome.collect s'.mirror.direction s'.mirror.candidates schedule.stepCount = _
    rw [hd, candidates_mirror, Outcome.collect_negate]

omit [Annealable F ℚ] in
theorem keep_mirror {e e' : Except SolverError (Session F ℚ)} (he : e' = e.map mirror) :
    step.keep s.mirror e' = ((step.keep s e).1.mirror,
      (step.keep s e).2.map (Option.map Outcome.negate)) := by
  subst he
  cases e <;> rfl

theorem step_mirror (h : IsNegation negate) (r : Request F ℚ) :
    s.mirror.step (r.mirror negate) =
      ((s.step r).1.mirror, (s.step r).2.map (Option.map Outcome.negate)) := by
  cases r with
  | setProblem p d => exact keep_mirror s (setProblem_mirror s h p d)
  | setTrotters count => exact keep_mirror s (setTrotters_mirror s count)
  | seed value => rfl
  | setX x => exact keep_mirror s (setX_mirror s x)
  | randomize => exact keep_mirror s (randomize_mirror s)
  | initAnneal => exact keep_mirror s (initAnneal_mirror s)
  | annealOneStep g kt => exact keep_mirror s (annealOneStep_mirror s g kt)
  | finAnneal => exact keep_mirror s (finAnneal_mirror s h)
  | solve schedule =>
    obtain ⟨hsolver, hresult⟩ := solve_mirror s h schedule
    refine Prod.ext hsolver ?_
    show (s.mirror.solve schedule).result.map some = ((s.solve schedule).result.map some).map _
    rw [hresult]
    cases (s.solve schedule).result <;> rfl

theorem run_mirror (h : IsNegation negate) (requests : List (Request F ℚ)) :
    s.mirror.run (requests.map (Request.mirror negate)) = (s.run requests).mirror := by
  rw [run, List.foldl_map]
  exact List.foldl_hom mirror fun t r => congrArg Prod.fst (step_mirror t h r)

/-- A session that is given every problem negated and in the opposite direction answers each request
like the one that is given the problems themselves: it fails with the same error or has the same
outcome but for the sign of its energies, and so it is with everything the two hold. -/
def AnswersMirrored (negate : F.Problem → F.Problem) (s : Session F ℚ) : Prop :=
  ∀ (requests : List (Request F ℚ)) (r : Request F ℚ),
    (s.run (requests.map (Request.mirror negate))).step (r.mirror negate) =
      (((s.run requests).step r).1.mirror,
        ((s.run requests).step r).2.map (Option.map Outcome.negate))

theorem answersMirrored (h : IsNegation negate) (hs : s.mirror = s) :
    s.AnswersMirrored negate := by
  intro requests r
  have hrun := run_mirror s h requests
  rw [hs] at hrun
  rw [hrun]
  exact step_mirror (s.run requests) h r

end Session

end Qubo.Anneal

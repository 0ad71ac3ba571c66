import Mathlib.Tactic
import Qubo.Proofs.Anneal.Store
import Qubo.Proofs.Schedule.Exact

/-! A complete run of an annealer, request by request: one step for each field of the schedule. The
number that it reports is the one that it has counted. -/
namespace Qubo.Anneal

section Requests
variable {F : Family} {α : Type} [Scalar α]

/-- The requests that a complete run stands for. -/
def requestsOf (schedule : Schedule α) : List (Request F α) :=
  schedule.trotters.toList.map .setTrotters ++ [.randomize, .initAnneal] ++
    schedule.fields.map (.annealOneStep · schedule.kt) ++ [.finAnneal]

namespace Session
variable [Annealable F α] {s s' t : Session F α}

/-- Requests that are all granted lead from one session to another. -/
inductive Leads : Session F α → List (Request F α) → Session F α → Prop
  | nil (s : Session F α) : Leads s [] s
  | cons {s s' t : Session F α} {r : Request F α} {requests : List (Request F α)}
      (h : s.step r = (s', .ok none)) (hrest : Leads s' requests t) : Leads s (r :: requests) t

theorem Leads.append {requests requests' : List (Request F α)} (h : Leads s requests s')
    (h' : Leads s' requests' t) : Leads s (requests ++ requests') t := by
  induction h with
  | nil => exact h'
  | cons hstep _ ih => exact .cons hstep (ih h')

theorem leads_steps {kt : α} {fields : List α}
    (h : fields.foldlM (fun s g => s.annealOneStep g kt) s = .ok t) :
    Leads s (fields.map (.annealOneStep · kt)) t := by
  induction fields generalizing s with
  | nil => exact Except.ok.inj h ▸ .nil s
  | cons g fields ih =>
    rw [List.foldlM_cons] at h
    obtain ⟨s', hs', h⟩ := Result.bind_eq_ok_iff.mp h
    exact .cons (by rw [step, hs']; rfl) (ih h)

theorem leads_of_anneal {schedule : Schedule α} (h : s.anneal schedule = .ok t) :
    Leads s (requestsOf schedule) t := by
  obtain ⟨-, s₁, h₁, s₂, h₂, s₃, h₃, s₄, h₄, h₅⟩ := anneal_eq_ok_iff.mp h
  have hadopted : Leads s (schedule.trotters.toList.map .setTrotters) s₁ := by
    cases htrotters : schedule.trotters with
    | none =>
      rw [htrotters] at h₁
      exact Except.ok.inj h₁ ▸ .nil s
    | some count =>
      rw [htrotters] at h₁
      exact .cons (by rw [step, show s.setTrotters count = .ok s₁ from h₁]; rfl) (.nil s₁)
  have hprepared : Leads s₁ [.randomize, .initAnneal] s₃ :=
    .cons (by rw [step, h₂]; rfl) (.cons (by rw [step, h₃]; rfl) (.nil s₃))
  have hread : Leads s₄ [.finAnneal] t := .cons (by rw [step, h₅]; rfl) (.nil t)
  exact ((hadopted.append hprepared).append (leads_steps h₄)).append hread

end Session

end Requests

/-- A complete run of an annealer after some requests: it takes the steps of the schedule one after
the other and reports `n` of them, and so does its storage unless memory runs out. -/
structure StepsThrough {F : Family} [Annealable F ℚ] [Storable F ℚ] (entropy : Random.Generator)
    (requests : List (Request F ℚ)) (schedule : Schedule ℚ) (n : ℕ) : Prop where
  leads : ((Session.new entropy).run requests).Leads (requestsOf schedule)
    (((Session.new entropy).run requests).solve schedule).solver
  steps : ∃ outcome, (((Session.new entropy).run requests).solve schedule).result = .ok outcome ∧
    outcome.steps = n
  counted : ∀ st st' answer, (Memory.new entropy).run requests = .ok st →
    st.answer (.solve schedule) = .ok (st', answer) →
      ∃ outcome, answer = .ok (some outcome) ∧ outcome.steps = n

theorem stepsThrough {F : Family} [Annealable F ℚ] [Storable F ℚ] {L : Layout F}
    (hF : Faithful L) (entropy : Random.Generator) {requests : List (Request F ℚ)}
    {p : F.Problem} {d : Direction} (hl : loaded requests = some (p, d)) {schedule : Schedule ℚ}
    (hv : schedule.validate = .ok ()) :
    StepsThrough entropy requests schedule schedule.stepCount := by
  obtain ⟨outcome, houtcome, hsteps⟩ := Session.exists_solve_of_loaded entropy hl hv
  refine ⟨?_, ⟨outcome, houtcome, hsteps⟩, fun st st' answer hst hanswer => ?_⟩
  · unfold Session.solve at houtcome ⊢
    split at houtcome
    · cases houtcome
    next s' hs' => exact Session.leads_of_anneal hs'
  · rcases Memory.answer_agrees hF (Memory.stores_of_run hF entropy hst) (.solve schedule) with
      ⟨hfault, -⟩ | ⟨st'', hst'', -⟩
    · exact nomatch hfault.symm.trans hanswer
    · obtain ⟨-, rfl⟩ := Prod.mk.inj (Except.ok.inj (hst''.symm.trans hanswer))
      exact ⟨outcome, by rw [Session.step, houtcome]; rfl, hsteps⟩

/-- The shape of an accepted schedule, and what both annealers make of it once they have a problem,
whatever has been asked of them before. -/
theorem annealers_step_through_fields [Transcendental ℚ] {schedule : Schedule ℚ}
    (hv : schedule.validate = .ok ()) :
    ∃ n, schedule.Descends n ∧
      (∀ entropy (requests : List (Request (denseFamily ℚ) ℚ)) w d,
        loaded requests = some (w, d) → StepsThrough entropy requests schedule n) ∧
      ∀ entropy (requests : List (Request (bipartiteFamily ℚ) ℚ)) p d,
        loaded requests = some (p, d) → StepsThrough entropy requests schedule n := by
  obtain ⟨n, hn⟩ := Schedule.exists_descends_of_validate hv
  refine ⟨n, hn, fun entropy requests w d hl => ?_, fun entropy requests p d hl => ?_⟩
  · exact hn.stepCount ▸ stepsThrough faithful_dense entropy hl hv
  · exact hn.stepCount ▸ stepsThrough faithful_bipartite entropy hl hv

/-- Three steps on two slices; the next field would be the end value. -/
theorem annealers_step_through_fields_of_halves :
    letI : Transcendental ℚ := ⟨id, id, id, id⟩
    let schedule : Schedule ℚ := ⟨1, 1 / 8, 1 / 2, 1, some 2⟩
    let requests : List (Request (denseFamily ℚ) ℚ) := [.setProblem (.fill 2 2 1) .maximize]
    let requests' : List (Request (bipartiteFamily ℚ) ℚ) :=
      [.seed 7, .setProblem ⟨[0, 1], [1], .fill 1 2 1⟩ .minimize]
    schedule.Descends 3 ∧ StepsThrough (.ofSeed 0) requests schedule 3 ∧
      StepsThrough (.ofSeed 0) requests' schedule 3 := by
  intro schedule requests requests'
  let _ : Transcendental ℚ := ⟨id, id, id, id⟩
  have hv : schedule.validate = .ok () := Schedule.validate_eq_ok_iff.mpr (by decide +kernel)
  obtain ⟨n, hn, hdense, hbipartite⟩ := annealers_step_through_fields hv
  obtain rfl : n = 3 := hn.stepCount.symm.trans (by decide +kernel)
  obtain ⟨model, hmodel⟩ := Result.exists_eq_ok
    (x := Annealable.model (F := denseFamily ℚ) (.fill 2 2 1)) (by decide +kernel)
  obtain ⟨model', hmodel'⟩ := Result.exists_eq_ok
    (x := Annealable.model (F := bipartiteFamily ℚ) ⟨[0, 1], [1], .fill 1 2 1⟩)
    (by decide +kernel)
  exact ⟨hn, hdense _ requests _ _ (loaded_setProblem hmodel .maximize []),
    hbipartite _ requests' _ _ (loaded_setProblem hmodel' .minimize [.seed 7])⟩

end Qubo.Anneal

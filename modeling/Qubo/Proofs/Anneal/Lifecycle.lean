import Mathlib.Tactic
import Qubo.Proofs.Anneal.Run
import Qubo.Proofs.History

/-! When an annealer takes steps and can be read out: from its preparation up to the next change of
its problem or of the number of its slices. -/
namespace Qubo.Anneal
variable {F : Family} {α : Type}

/-- What gets an annealer ready for steps. -/
def Prepares : Request F α × Except SolverError (Option (Outcome α)) → Prop
  | (.initAnneal, .ok _) => True
  | (.solve _, .ok _) => True
  | _ => False

/-- What an annealer has to be prepared anew for. -/
def Unsettles : Request F α × Except SolverError (Option (Outcome α)) → Prop
  | (.setProblem _ _, .ok _) => True
  | (.setTrotters _, .ok _) => True
  | _ => False

namespace Session
variable [Scalar α] [Annealable F α] {s s' : Session F α}

omit [Scalar α] in
theorem Sound.prepared_ensureTrotters (h : Sound (fun _ _ _ => True) s) (model : F.Model) :
    (s.ensureTrotters model).prepared = s.prepared := by
  unfold Session.ensureTrotters
  cases htrotters : s.trotters with
  | some m => rfl
  | none =>
    cases hprepared : s.prepared with
    | false => rfl
    | true =>
      obtain ⟨q, hq⟩ := Option.isSome_iff_exists.mp (h.prepared hprepared).2
      obtain ⟨-, m, -, hm, -⟩ := h.spins_fit q hq
      exact nomatch htrotters.symm.trans hm

theorem prepared_anneal {schedule : Schedule α} (h : s.anneal schedule = .ok s') :
    s'.prepared = true := by
  obtain ⟨t, ht, -⟩ := exists_finAnneal_of_anneal h
  obtain ⟨model, q, hprepared, -, -, rfl⟩ := finAnneal_eq_ok_iff.mp ht
  exact hprepared

/-- What one request does to the readiness of an annealer. -/
theorem Sound.prepared_step (h : Sound (fun _ _ _ => True) s) (r : Request F α) :
    (s.step r).1.prepared = true ↔
      Prepares (r, (s.step r).2) ∨ s.prepared = true ∧ ¬ Unsettles (r, (s.step r).2) := by
  cases r with
  | setProblem p d =>
    simp only [step]
    cases hs : s.setProblem p d with
    | error e => simp [step.keep, Prepares, Unsettles]
    | ok s' =>
      obtain ⟨model, -, rfl⟩ := setProblem_eq_ok_iff.mp hs
      simp [step.keep, Prepares, Unsettles]
  | setTrotters count =>
    simp only [step]
    cases hs : s.setTrotters count with
    | error e => simp [step.keep, Prepares, Unsettles]
    | ok s' =>
      obtain ⟨-, -, rfl⟩ := setTrotters_eq_ok_iff.mp hs
      simp [step.keep, Prepares, Unsettles]
  | seed value => simp [step, step.keep, seed, Prepares, Unsettles]
  | setX x =>
    simp only [step]
    cases hs : s.setX x with
    | error e => simp [step.keep, Prepares, Unsettles]
    | ok s' =>
      obtain ⟨model, -, -, rfl⟩ := setX_eq_ok_iff.mp hs
      simp [step.keep, Prepares, Unsettles, h.prepared_ensureTrotters]
  | randomize =>
    simp only [step]
    cases hs : s.randomize with
    | error e => simp [step.keep, Prepares, Unsettles]
    | ok s' =>
      obtain ⟨model, -, rfl⟩ := randomize_eq_ok_iff.mp hs
      simp [step.keep, Prepares, Unsettles, drawSpins_eq, h.prepared_ensureTrotters]
  | initAnneal =>
    simp only [step]
    cases hs : s.initAnneal with
    | error e => simp [step.keep, Prepares, Unsettles]
    | ok s' =>
      obtain ⟨model, t, -, -, rfl⟩ := initAnneal_eq_ok_iff.mp hs
      simp [step.keep, Prepares]
  | annealOneStep g kt =>
    simp only [step]
    cases hs : s.annealOneStep g kt with
    | error e => simp [step.keep, Prepares, Unsettles]
    | ok s' =>
      obtain ⟨model, rng, q, -, -, -, -, rfl⟩ := annealOneStep_eq_ok_iff.mp hs
      simp [step.keep, Prepares, Unsettles]
  | finAnneal =>
    simp only [step]
    cases hs : s.finAnneal with
    | error e => simp [step.keep, Prepares, Unsettles]
    | ok s' =>
      obtain ⟨model, q, -, -, -, rfl⟩ := finAnneal_eq_ok_iff.mp hs
      simp [step.keep, Prepares, Unsettles]
  | solve schedule =>
    simp only [step, solve]
    cases hs : s.anneal schedule with
    | error e => simp [Except.map, Prepares, Unsettles]
    | ok s' =>
      obtain ⟨outcome, houtcome, -⟩ := Outcome.exists_steps_of_collect s'.direction
        (h.candidates_ne_nil hs) schedule.stepCount
      simp [houtcome, Except.map, Prepares, prepared_anneal hs]

theorem Sound.step (h : Sound (fun _ _ _ => True) s) (r : Request F α) :
    Sound (fun _ _ _ => True) (s.step r).1 := by
  by_cases hr : ∃ p d, r = .setProblem p d
  · obtain ⟨p, d, rfl⟩ := hr
    show Sound _ (step.keep s (s.setProblem p d)).1
    cases hs : s.setProblem p d with
    | error e => exact h
    | ok s' => exact h.setProblem hs
  · exact (stable_sound steady_true).step h (fun p d hp => hr ⟨p, d, hp⟩) fun _ _ => trivial

omit [Scalar α] [Annealable F α] in
theorem Sound.exists_isReady (h : Sound (fun _ _ _ => True) s) (hprepared : s.prepared = true) :
    ∃ model, s.IsReady model := by
  obtain ⟨hrng, hspins⟩ := h.prepared hprepared
  obtain ⟨q, hq⟩ := Option.isSome_iff_exists.mp hspins
  obtain ⟨model, -, hmodel, -, -⟩ := h.spins_fit q hq
  exact ⟨model, hprepared, hmodel, hrng, hspins⟩

theorem Sound.answered_annealOneStep (h : Sound (fun _ _ _ => True) s) (g kt : α) :
    AnsweredWhile (s.prepared = true) .annealOneStep (s.step (.annealOneStep g kt)).2 := by
  apply answeredWhile
  · intro hprepared
    obtain ⟨model, hready⟩ := h.exists_isReady hprepared
    obtain ⟨s', hs', -⟩ := hready.annealOneStep g kt
    exact ⟨none, by simp [Session.step, hs', step.keep]⟩
  · intro hprepared
    simp [Session.step, Session.annealOneStep, Bool.not_eq_true _ ▸ hprepared, step.keep]

theorem Sound.answered_finAnneal (h : Sound (fun _ _ _ => True) s) :
    AnsweredWhile (s.prepared = true) .finAnneal (s.step .finAnneal).2 := by
  apply answeredWhile
  · intro hprepared
    obtain ⟨model, hready⟩ := h.exists_isReady hprepared
    obtain ⟨s', hs'⟩ := hready.finAnneal
    exact ⟨none, by simp [Session.step, hs', step.keep]⟩
  · intro hprepared
    simp [Session.step, Session.finAnneal, Bool.not_eq_true _ ▸ hprepared, step.keep]

end Session

/-- After a sequence of requests a step is taken, and slices are read out, just if a preparation has
been the last thing that mattered. -/
structure FollowsProtocol [Scalar α] [Annealable F α] (entropy : Random.Generator)
    (requests : List (Request F α)) : Prop where
  steps : ∀ g kt, AnsweredWhile
    (IsRaised Prepares Unsettles (transcript Session.step (Session.new entropy) requests))
    .annealOneStep (((Session.new entropy).run requests).step (.annealOneStep g kt)).2
  readings : AnsweredWhile
    (IsRaised Prepares Unsettles (transcript Session.step (Session.new entropy) requests))
    .finAnneal (((Session.new entropy).run requests).step .finAnneal).2

theorem followsProtocol [Scalar α] [Annealable F α] (entropy : Random.Generator)
    (requests : List (Request F α)) : FollowsProtocol entropy requests := by
  obtain ⟨hsound, hprepared⟩ := flag_iff_isRaised (Session.step (F := F) (α := α))
    (fun s => s.prepared = true) (Session.Sound fun _ _ _ => True) (fun _ => True) Prepares Unsettles
    (fun s r hs _ => hs.step r) (fun s r hs _ => hs.prepared_step r)
    (Session.sound_new entropy) Bool.false_ne_true (fun r (_ : r ∈ requests) => trivial)
  constructor
  · exact fun g kt => propext hprepared ▸ hsound.answered_annealOneStep g kt
  · exact propext hprepared ▸ hsound.answered_finAnneal

end Qubo.Anneal

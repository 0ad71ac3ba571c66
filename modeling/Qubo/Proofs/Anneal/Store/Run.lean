import Mathlib.Tactic
import Qubo.Proofs.Anneal.Store.Refine
import Qubo.Proofs.Anneal.Trotters

/-! Complete runs in storage, and the answers to any sequence of requests: they are those of the
session that is stored. -/
namespace Qubo.Anneal
open Checked (Fault)
variable {F : Family} {α : Type}

theorem collectAt_eq [LT α] [DecidableLT α] (d : Direction) (candidates : List (Keyed α Assignment))
    (steps : ℕ) : collectAt d (candidates.map (·.key)) (candidates.map (·.tag)) steps =
      .ok (Outcome.collect d candidates steps) := by
  rw [collectAt, Outcome.collect, Direction.bestIndex?, Direction.best?, d.bestEntry?_keys]
  cases hbest : d.bestEntry? candidates with
  | none => rfl
  | some e =>
    have hentry := d.getElem?_of_bestEntry? hbest
    simp only [Option.map_some, List.getElem?_map, hentry]
    rfl

namespace Session
variable [Annealable F α] {s s' : Session F α}

theorem SettlesTrotters.keepsSize (h : SettlesTrotters s s') (hmodel : s'.model = s.model) :
    KeepsSize s s' := by
  refine ⟨hmodel, fun m hm => ?_⟩
  obtain ⟨model, -, htrotters⟩ := h
  rw [htrotters, hm, Option.getD_some]

theorem keepsSize_randomize (h : s.randomize = .ok s') : KeepsSize s s' :=
  (settles_randomize h).keepsSize
    ((stable_frame fun model _ => model = s.model).randomize s s' rfl h)

theorem keepsSize_initAnneal (h : s.initAnneal = .ok s') : KeepsSize s s' :=
  (settles_initAnneal h).keepsSize
    ((stable_frame fun model _ => model = s.model).initAnneal s s' rfl h)

theorem keepsSize_annealOneStep {g kt : α} (h : s.annealOneStep g kt = .ok s') :
    KeepsSize s s' where
  model := (stable_frame fun model _ => model = s.model).annealOneStep s s' g kt rfl h
  trotters _ hm := (trotters_annealOneStep h).trans hm

theorem keepsSize_finAnneal (h : s.finAnneal = .ok s') : KeepsSize s s' where
  model := (stable_frame fun model _ => model = s.model).finAnneal s s' rfl h
  trotters _ hm := (trotters_finAnneal h).trans hm

theorem keepsSize_steps {kt : α} {fields : List α}
    (h : fields.foldlM (fun s g => s.annealOneStep g kt) s = .ok s') : KeepsSize s s' :=
  Result.foldlM_keeps (I := KeepsSize s)
    (fun _ _ _ ht hstep => ht.trans (keepsSize_annealOneStep hstep)) ⟨rfl, fun _ hm => hm⟩ h

end Session

namespace Memory

/-- A session that keeps its size takes no more room later on. -/
theorem Performs.ends_of_keepsSize {L : Layout F} {x : Action F α Unit}
    {f : Session F α → Except SolverError (Session F α)} (hx : Performs L x f) {st : Memory F α}
    {s t s' : Session F α} (h : Stores L st s) (ht : f s = .ok t) (hkeeps : t.KeepsSize s') :
    Ends (¬ s'.HasRoom L) (x st) fun _ st' => Stores L st' t :=
  (hx.ends st s t h ht).imp (fun hfull hroom => hfull (hroom.of_keepsSize hkeeps)) fun _ _ h => h

variable [Annealable F α] [Storable F α] {L : Layout F} {st : Memory F α} {s : Session F α}
  (hF : Faithful L)
include hF

/-- The steps of a run, counted from `k`. -/
theorem foldlM_countStep_ends (kt : α) (fields : List α) (h : Stores L st s)
    {s' : Session F α} (hs : fields.foldlM (fun s g => s.annealOneStep g kt) s = .ok s') (k : ℕ) :
    Ends False (fields.foldlM (m := Action F α) (countStep kt) k st) fun steps st' =>
      steps = k + fields.length ∧ Stores L st' s' := by
  induction fields generalizing st s k with
  | nil =>
    obtain rfl := Except.ok.inj hs
    exact ⟨rfl, h⟩
  | cons g fields ih =>
    rw [List.foldlM_cons] at hs
    obtain ⟨t, ht, hs⟩ := Result.bind_eq_ok_iff.mp hs
    obtain ⟨st₁, hst₁, h₁⟩ := annealOneStep_ok hF h ht
    rw [List.foldlM_cons]
    refine Ends.step (t := st₁) (bind_eq hst₁) ((ih h₁ hs (k + 1)).imp id fun steps st' hst => ?_)
    exact ⟨by rw [hst.1, List.length_cons]; omega, hst.2⟩

variable [Scalar α]

theorem anneal_ends (h : Stores L st s) {schedule : Schedule α} {s' : Session F α}
    (hs : s.anneal schedule = .ok s') : Ends (¬ s'.HasRoom L) (anneal schedule st) fun steps st' =>
      steps = schedule.stepCount ∧ Stores L st' s' := by
  obtain ⟨hv, s₁, hs₁, s₂, hs₂, s₃, hs₃, s₄, hs₄, hs₅⟩ := Session.anneal_eq_ok_iff.mp hs
  -- Room is made twice at most, and each time for the slices of the session that is read out.
  have hkeeps₃ : s₃.KeepsSize s' := (Session.keepsSize_steps hs₄).trans
    (Session.keepsSize_finAnneal hs₅)
  have hkeeps₂ : s₂.KeepsSize s' := (Session.keepsSize_initAnneal hs₃).trans hkeeps₃
  have hkeeps₁ : s₁.KeepsSize s' := (Session.keepsSize_randomize hs₂).trans hkeeps₂
  have hadopted : Ends (¬ s'.HasRoom L) (schedule.trotters.elim (return ()) setTrotters st)
      fun _ st' => Stores L st' s₁ := by
    cases htrotters : schedule.trotters with
    | none =>
      rw [htrotters] at hs₁
      obtain rfl := Except.ok.inj hs₁
      exact h
    | some count =>
      rw [htrotters] at hs₁
      exact (setTrotters_performs hF count).ends_of_keepsSize h hs₁ hkeeps₁
  refine Ends.step (v := ()) (t := st) (by rw [hv]; rfl) (Ends.bind hadopted fun _ st₁ h₁ => ?_)
  refine Ends.bind ((randomize_performs hF).ends_of_keepsSize h₁ hs₂ hkeeps₂) fun _ st₂ h₂ => ?_
  refine Ends.bind ((initAnneal_performs hF).ends_of_keepsSize h₂ hs₃ hkeeps₃) fun _ st₃ h₃ => ?_
  refine Ends.bind ((foldlM_countStep_ends hF schedule.kt schedule.fields h₃ hs₄ 0).imp
    False.elim fun _ _ h => h) ?_
  rintro steps st₄ ⟨hsteps, h₄⟩
  obtain ⟨st₅, hst₅, h₅⟩ := finAnneal_ok hF h₄ hs₅
  refine Ends.step hst₅ ⟨?_, h₅⟩
  rw [hsteps, Nat.zero_add, Schedule.stepCount]

/-- A run that is refused is refused before anything is stored. -/
theorem anneal_refused (h : Stores L st s) {schedule : Schedule α} {e : SolverError}
    (he : s.anneal schedule = .error e) : anneal schedule st = .error (.refused e) st := by
  cases hv : schedule.validate with
  | error e' =>
    obtain rfl : e' = e := by
      rw [Session.anneal_eq, hv] at he
      exact Except.error.inj he
    refine bind_eq_error ?_
    rw [hv]
    rfl
  | ok u =>
    -- An accepted schedule is refused for want of a problem only.
    have hmodel : s.model = none := by
      cases hmodel : s.model with
      | none => rfl
      | some model =>
        obtain ⟨s', hs'⟩ := Session.exists_anneal_eq_ok hmodel hv
        exact nomatch hs'.symm.trans he
    have hpos := (Schedule.validate_eq_ok_iff.mp hv).2.2.2.2
    refine (bind_eq (v := ()) (t := st) (by rw [hv]; rfl)).trans ?_
    rw [Session.anneal_eq, hv] at he
    cases htrotters : schedule.trotters with
    | none =>
      rw [htrotters] at he
      have hrefused : s.randomize = .error .problemNotSet := by rw [Session.randomize, hmodel]
      obtain rfl : .problemNotSet = e := by
        simpa [Session.adoptTrotters, hrefused, bind, Except.bind] using he
      refine (bind_eq (v := ()) (t := st) rfl).trans (bind_eq_error ?_)
      exact (randomize_performs hF).refused st s _ h hrefused
    | some count =>
      rw [htrotters] at he hpos
      have hcount : count ≠ 0 := fun h => hpos (congrArg some h)
      have hrefused : s.setTrotters count = .error .problemNotSet := by
        rw [Session.setTrotters, if_neg hcount, hmodel]
      obtain rfl : .problemNotSet = e := by
        simpa [Session.adoptTrotters, hrefused, bind, Except.bind] using he
      exact bind_eq_error ((setTrotters_performs hF count).refused st s _ h hrefused)

/-- The answer is that of the session, and so is what is stored then, unless there is no room for
the session. -/
def Agrees {β : Type} (L : Layout F)
    (answered : Except Fault (Memory F α × β)) (expected : Session F α × β) : Prop :=
  (answered = .error .capacity ∧ ¬ expected.1.HasRoom L) ∨
    ∃ st, answered = .ok (st, expected.2) ∧ Stores L st expected.1

omit hF [Annealable F α] [Storable F α] [Scalar α] in
theorem Performs.agrees {x : Action F α Unit}
    {f : Session F α → Except SolverError (Session F α)} (hx : Performs L x f)
    (h : Stores L st s) :
    Agrees L (settle ((do x; return none : Action F α (Option (Outcome α))) st))
      (Session.step.keep s (f s)) := by
  cases hf : f s with
  | error e =>
    rw [bind_eq_error (hx.refused st s e h hf)]
    exact Or.inr ⟨st, rfl, h⟩
  | ok s' =>
    rcases (hx.ends st s s' h hf).exists with ⟨hfull, st', hst'⟩ | ⟨⟨⟩, st', hst', h'⟩
    · rw [bind_eq_error hst']
      exact Or.inl ⟨rfl, hfull⟩
    · rw [bind_eq hst']
      exact Or.inr ⟨st', rfl, h'⟩

omit hF [Storable F α] in
/-- The candidates that are stored are those of the last readings. -/
theorem collectAt_of_stores (h : Stores L st s) (steps : ℕ) :
    collectAt st.direction st.energies (st.solutions.map Annealable.assignment) steps =
      .ok (Outcome.collect s.direction s.candidates steps) := by
  have hkeys : st.energies = s.candidates.map (·.key) := by
    rw [← h.shows.energies, Session.candidates, List.map_map]
    rfl
  have htags : st.solutions.map Annealable.assignment = s.candidates.map (·.tag) := by
    rw [← h.shows.solutions, Session.candidates, Session.solutions, List.map_map, List.map_map]
    rfl
  rw [hkeys, htags, ← h.shows.direction, collectAt_eq]

theorem solve_agrees (h : Stores L st s) (schedule : Schedule α) :
    Agrees L (st.answer (.solve schedule)) (s.step (.solve schedule)) := by
  rw [Session.step, Session.solve]
  cases hs : s.anneal schedule with
  | error e =>
    have hsolve : solve schedule st = .error (.refused e) st :=
      bind_eq_error (anneal_refused hF h hs)
    exact Or.inr ⟨st, congrArg settle (bind_eq_error hsolve), h⟩
  | ok s' =>
    rcases (anneal_ends hF h hs).exists with ⟨hfull, st', hst'⟩ | ⟨_, st', hst', rfl, h'⟩
    · exact Or.inl ⟨congrArg settle (bind_eq_error (bind_eq_error hst')), hfull⟩
    · have hcollect : attempt (collectAt st'.direction st'.energies
          (st'.solutions.map Annealable.assignment) schedule.stepCount) st' =
            .ok (Outcome.collect s'.direction s'.candidates schedule.stepCount) st' := by
        rw [collectAt_of_stores h']
        rfl
      have hsolve : solve schedule st =
          refuse (Outcome.collect s'.direction s'.candidates schedule.stepCount) st' :=
        (bind_eq hst').trans ((get_bind _).trans (bind_eq hcollect))
      refine Or.inr ⟨st', ?_, h'⟩
      show st.answer (.solve schedule) = .ok (st',
        (Outcome.collect s'.direction s'.candidates schedule.stepCount).map some)
      cases houtcome : Outcome.collect s'.direction s'.candidates schedule.stepCount with
      | error e =>
        rw [houtcome] at hsolve
        exact congrArg settle (bind_eq_error hsolve)
      | ok outcome =>
        rw [houtcome] at hsolve
        exact congrArg settle (bind_eq hsolve)

/-- Whatever is asked of it, storage answers as the session does. -/
theorem answer_agrees (h : Stores L st s) (r : Request F α) :
    Agrees L (st.answer r) (s.step r) := by
  cases r with
  | setProblem p d => exact (setProblem_performs hF p d).agrees h
  | setTrotters count => exact (setTrotters_performs hF count).agrees h
  | seed value => exact Or.inr ⟨_, rfl, h.setRng (.ofSeed value)⟩
  | setX x => exact (setX_performs hF x).agrees h
  | randomize => exact (randomize_performs hF).agrees h
  | initAnneal => exact (initAnneal_performs hF).agrees h
  | annealOneStep g kt => exact (annealOneStep_performs hF g kt).agrees h
  | finAnneal => exact (finAnneal_performs hF).agrees h
  | solve schedule => exact solve_agrees hF h schedule

omit hF [Annealable F α] [Storable F α] [Scalar α] in
theorem Performs.keeps_of_refused {x : Action F α Unit}
    {f : Session F α → Except SolverError (Session F α)} (hx : Performs L x f)
    (h : Stores L st s) {e : SolverError} {st' : Memory F α}
    (hrefused : (do x; return none : Action F α (Option (Outcome α))) st =
      .error (.refused e) st') : st' = st := by
  cases hf : f s with
  | error e' =>
    rw [bind_eq_error (hx.refused st s e' h hf)] at hrefused
    cases hrefused
    rfl
  | ok s' =>
    rcases (hx.ends st s s' h hf).exists with ⟨-, t, ht⟩ | ⟨⟨⟩, t, ht, -⟩
    · rw [bind_eq_error ht] at hrefused
      cases hrefused
    · rw [bind_eq ht] at hrefused
      cases hrefused

/-- A complete run that is refused is refused before anything is stored, for once it has begun
there is a reading to report. -/
theorem solve_keeps_of_refused (h : Stores L st s) (hsound : s.Sound fun _ _ _ => True)
    {schedule : Schedule α} {e : SolverError} {st' : Memory F α}
    (hrefused : perform (.solve schedule) st = .error (.refused e) st') : st' = st := by
  cases hs : s.anneal schedule with
  | error e' =>
    have hsolve : solve schedule st = .error (.refused e') st :=
      bind_eq_error (anneal_refused hF h hs)
    rw [perform, bind_eq_error hsolve] at hrefused
    cases hrefused
    rfl
  | ok s' =>
    rcases (anneal_ends hF h hs).exists with ⟨-, t, ht⟩ | ⟨steps, t, ht, -, h'⟩
    · have hsolve : solve schedule st = .error (.fault .capacity) t := bind_eq_error ht
      rw [perform, bind_eq_error hsolve] at hrefused
      cases hrefused
    · obtain ⟨outcome, houtcome, -⟩ := Outcome.exists_steps_of_collect s'.direction
        (hsound.candidates_ne_nil hs) steps
      have hcollect : attempt (collectAt t.direction t.energies
          (t.solutions.map Annealable.assignment) steps) t = .ok (.ok outcome) t := by
        rw [collectAt_of_stores h', houtcome]
        rfl
      have hsolve : solve schedule st = .ok outcome t :=
        (bind_eq ht).trans ((get_bind _).trans (bind_eq hcollect))
      rw [perform, bind_eq hsolve] at hrefused
      cases hrefused

/-- What is refused has changed nothing. -/
theorem perform_keeps_of_refused (h : Stores L st s) (hsound : s.Sound fun _ _ _ => True)
    {r : Request F α} {e : SolverError} {st' : Memory F α}
    (hrefused : perform r st = .error (.refused e) st') : st' = st := by
  cases r with
  | setProblem p d => exact (setProblem_performs hF p d).keeps_of_refused h hrefused
  | setTrotters count => exact (setTrotters_performs hF count).keeps_of_refused h hrefused
  | seed value => cases hrefused
  | setX x => exact (setX_performs hF x).keeps_of_refused h hrefused
  | randomize => exact (randomize_performs hF).keeps_of_refused h hrefused
  | initAnneal => exact (initAnneal_performs hF).keeps_of_refused h hrefused
  | annealOneStep g kt => exact (annealOneStep_performs hF g kt).keeps_of_refused h hrefused
  | finAnneal => exact (finAnneal_performs hF).keeps_of_refused h hrefused
  | solve schedule => exact solve_keeps_of_refused hF h hsound hrefused

/-- A run in storage is the run of the session that is stored, as far as there is room. -/
theorem run_agrees (h : Stores L st s) (requests : List (Request F α)) :
    (st.run requests = .error .capacity ∧
      ∃ before, before <+: requests ∧ ¬ (s.run before).HasRoom L) ∨
    ∃ st', st.run requests = .ok st' ∧ Stores L st' (s.run requests) := by
  induction requests generalizing st s with
  | nil => exact Or.inr ⟨st, rfl, h⟩
  | cons r rs ih =>
    rw [run, List.foldlM_cons]
    rcases answer_agrees hF h r with ⟨hfault, hfull⟩ | ⟨st', hst', h'⟩
    · rw [hfault]
      exact Or.inl ⟨rfl, [r], List.prefix_append [r] rs, hfull⟩
    · rw [hst']
      rcases ih h' with ⟨hfault, before, hbefore, hfull⟩ | hok
      · exact Or.inl ⟨hfault, r :: before, List.cons_prefix_cons.mpr ⟨rfl, hbefore⟩, hfull⟩
      · exact Or.inr hok

/-- A run in storage that ends has stored the session. -/
theorem stores_of_run (entropy : Random.Generator) {requests : List (Request F α)}
    (hst : (new entropy).run requests = .ok st) :
    Stores L st ((Session.new entropy).run requests) := by
  rcases run_agrees hF (stores_new (L := L) entropy) requests with ⟨hfault, -⟩ | ⟨u, hu, h⟩
  · exact nomatch hfault.symm.trans hst
  · obtain rfl := Except.ok.inj (hu.symm.trans hst)
    exact h

end Memory

end Qubo.Anneal

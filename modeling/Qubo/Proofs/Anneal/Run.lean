import Mathlib.Tactic
import Qubo.Proofs.Anneal.Session
import Qubo.Proofs.Outcome
import Qubo.Proofs.Schedule

/-! Runs of annealing sessions: a run keeps what its requests keep, the problem in force is the one
that was loaded last, and a complete run under an accepted schedule cannot fail. -/
namespace Qubo.Anneal
variable {F : Family} {α : Type} [Annealable F α]

/-- The problem in force after one more request: a problem that cannot be loaded changes nothing. -/
def Request.load (inForce : Option (F.Problem × Direction)) :
    Request F α → Option (F.Problem × Direction)
  | .setProblem p d =>
    match Annealable.model p with
    | .ok _ => some (p, d)
    | .error _ => inForce
  | _ => inForce

/-- The last problem that a sequence of requests has loaded, with its direction. -/
def loaded (requests : List (Request F α)) : Option (F.Problem × Direction) :=
  requests.foldl Request.load none

theorem loaded_setProblem {p : F.Problem} {model : F.Model} (h : Annealable.model p = .ok model)
    (d : Direction) (before : List (Request F α)) :
    loaded (before ++ [.setProblem p d]) = some (p, d) := by
  rw [loaded, List.foldl_append, List.foldl_cons, List.foldl_nil, Request.load, h]

namespace Session

/-- The session holds the spin form of the problem in force, signed by its direction. -/
def Follows : Option (F.Problem × Direction) → Session F α → Prop
  | none, s => s.model = none
  | some (p, d), s => ∃ model, Annealable.model p = .ok model ∧
      s.model = some (Annealable.signed model d) ∧ s.direction = d

variable {admits : F.Solution → Prop} {R : F.Model → ℕ → F.Spins → Prop} {s s' : Session F α}

theorem follows_setProblem {p : F.Problem} {d : Direction} (h : s.setProblem p d = .ok s') :
    Follows (some (p, d)) s' := by
  obtain ⟨model, hmodel, rfl⟩ := setProblem_eq_ok_iff.mp h
  exact ⟨model, hmodel, rfl, rfl⟩

/-- The model of a session is the one of the problem in force. -/
theorem Follows.exists_of_model {inForce : Option (F.Problem × Direction)}
    (h : Follows inForce s) {model : F.Model} (hmodel : s.model = some model) :
    ∃ p d given, inForce = some (p, d) ∧ Annealable.model p = .ok given ∧
      model = Annealable.signed given d ∧ s.direction = d := by
  match inForce, h with
  | none, hnone =>
    have hnone : s.model = none := hnone
    exact absurd (hmodel.symm.trans hnone) (Option.some_ne_none _)
  | some (p, d), ⟨given, hgiven, hsigned, hd⟩ =>
    exact ⟨p, d, given, rfl, hgiven, Option.some.inj (hmodel.symm.trans hsigned), hd⟩

theorem stable_follows (inForce : Option (F.Problem × Direction)) :
    Stable (fun _ => True) (Follows inForce : Session F α → Prop) := by
  cases inForce with
  | none => exact stable_frame fun model _ => model = none
  | some l => exact stable_frame fun model d => ∃ given, Annealable.model l.1 = .ok given ∧
      model = some (Annealable.signed given l.2) ∧ d = l.2

theorem Sound.setProblem (h : Sound R s) {p : F.Problem} {d : Direction}
    (hs : s.setProblem p d = .ok s') : Sound R s' := by
  obtain ⟨model, -, rfl⟩ := setProblem_eq_ok_iff.mp hs
  exact h.clearSpins d _

/-- A session that is read out shows every slice of the problem in force. -/
theorem finAnneal_shows {inForce : Option (F.Problem × Direction)} (hsound : Sound R s)
    (hfollows : Follows inForce s) (h : s.finAnneal = .ok s') :
    ∃ p d model m q, inForce = some (p, d) ∧ Annealable.model p = .ok model ∧
      s'.direction = d ∧ s'.trotters = some m ∧ 0 < m ∧ R (Annealable.signed model d) m q ∧
      s'.readings = (List.range m).map (Annealable.read (Annealable.signed model d) d q) := by
  obtain ⟨model, q, -, hmodel, hq, rfl⟩ := finAnneal_eq_ok_iff.mp h
  obtain ⟨model', m, hmodel', htrotters, hR⟩ := hsound.spins_fit q hq
  obtain rfl := Option.some.inj (hmodel'.symm.trans hmodel)
  obtain ⟨p, d, given, hinForce, hgiven, rfl, hd⟩ := hfollows.exists_of_model hmodel
  refine ⟨p, d, given, m, q, hinForce, hgiven, hd, htrotters, hsound.trotters_pos m htrotters, hR, ?_⟩
  rw [slices, htrotters, hd, Option.getD_some]

/-- Everything that a step needs is there. -/
def IsReady (model : F.Model) (s : Session F α) : Prop :=
  s.prepared = true ∧ s.model = some model ∧ s.rng.isSome ∧ s.spins.isSome

theorem exists_initAnneal_eq_ok {model : F.Model} (hmodel : s.model = some model) :
    ∃ s', s.initAnneal = .ok s' ∧ s'.IsReady model := by
  refine ⟨_, initAnneal_eq_ok_iff.mpr ⟨model, _, hmodel, rfl, rfl⟩, rfl, ?_⟩
  split_ifs with hspins
  · exact ⟨by simpa using hmodel, by simp, hspins⟩
  · exact ⟨by simpa using hmodel, rfl, rfl⟩

theorem IsReady.annealOneStep {model : F.Model} (h : s.IsReady model) (g kt : α) :
    ∃ s', s.annealOneStep g kt = .ok s' ∧ s'.IsReady model := by
  obtain ⟨hprepared, hmodel, hrng, hspins⟩ := h
  obtain ⟨rng, hrng⟩ := Option.isSome_iff_exists.mp hrng
  obtain ⟨q, hq⟩ := Option.isSome_iff_exists.mp hspins
  exact ⟨_, annealOneStep_eq_ok_iff.mpr ⟨model, rng, q, hprepared, hmodel, hrng, hq, rfl⟩,
    hprepared, hmodel, rfl, rfl⟩

theorem IsReady.finAnneal {model : F.Model} (h : s.IsReady model) :
    ∃ s', s.finAnneal = .ok s' := by
  obtain ⟨hprepared, hmodel, -, hspins⟩ := h
  obtain ⟨q, hq⟩ := Option.isSome_iff_exists.mp hspins
  exact ⟨_, finAnneal_eq_ok_iff.mpr ⟨model, q, hprepared, hmodel, hq, rfl⟩⟩

/-- A schedule may ask for a number of slices. -/
def adoptTrotters (requested : Option ℕ) (s : Session F α) : Except SolverError (Session F α) :=
  requested.elim (.ok s) fun count => s.setTrotters count

theorem Stable.adoptTrotters {I : Session F α → Prop} (hI : Stable admits I) (hs : I s)
    {requested : Option ℕ} (h : s.adoptTrotters requested = .ok s') : I s' := by
  cases requested with
  | none => exact Except.ok.inj h ▸ hs
  | some count => exact hI.setTrotters s s' count hs h

omit [Annealable F α] in
theorem exists_adoptTrotters_eq_ok {model : F.Model} (hmodel : s.model = some model)
    {requested : Option ℕ} (hpos : requested ≠ some 0) :
    ∃ s', s.adoptTrotters requested = .ok s' := by
  cases requested with
  | none => exact ⟨s, rfl⟩
  | some count =>
    have hcount : 0 < count := Nat.pos_of_ne_zero fun h => hpos (congrArg some h)
    exact ⟨_, setTrotters_eq_ok_iff.mpr ⟨hcount, by simp [hmodel], rfl⟩⟩

variable [Scalar α]

/-- The stages of a complete run. -/
theorem anneal_eq (schedule : Schedule α) (s : Session F α) : s.anneal schedule =
    schedule.validate >>= fun _ =>
    s.adoptTrotters schedule.trotters >>= fun s =>
    s.randomize >>= fun s => s.initAnneal >>= fun s =>
    schedule.fields.foldlM (fun s g => s.annealOneStep g schedule.kt) s >>= finAnneal := by
  unfold anneal
  cases schedule.trotters <;> rfl

/-- A complete run succeeds just if each of its stages does. -/
theorem anneal_eq_ok_iff {schedule : Schedule α} : s.anneal schedule = .ok s' ↔
    schedule.validate = .ok () ∧ ∃ s₁, s.adoptTrotters schedule.trotters = .ok s₁ ∧
      ∃ s₂, s₁.randomize = .ok s₂ ∧ ∃ s₃, s₂.initAnneal = .ok s₃ ∧
      ∃ s₄, schedule.fields.foldlM (fun s g => s.annealOneStep g schedule.kt) s₃ = .ok s₄ ∧
        s₄.finAnneal = .ok s' := by
  rw [anneal_eq, Result.bind_eq_ok_iff]
  simp only [Result.bind_eq_ok_iff]
  exact ⟨fun ⟨_, hv, h⟩ => ⟨hv, h⟩, fun ⟨hv, h⟩ => ⟨(), hv, h⟩⟩

/-- A complete run reads out a session in which all that requests keep has been kept. -/
theorem exists_finAnneal_of_anneal {schedule : Schedule α} (h : s.anneal schedule = .ok s') :
    ∃ t : Session F α, t.finAnneal = .ok s' ∧
      ∀ (admits : F.Solution → Prop) (I : Session F α → Prop), Stable admits I → I s → I t := by
  obtain ⟨-, s₁, h₁, s₂, h₂, s₃, h₃, t, ht, h⟩ := anneal_eq_ok_iff.mp h
  refine ⟨t, h, fun admits I hI hs => ?_⟩
  have hs₃ : I s₃ := hI.initAnneal _ _ (hI.randomize _ _ (hI.adoptTrotters hs h₁) h₂) h₃
  exact Result.foldlM_keeps (fun s s' g => hI.annealOneStep s s' g schedule.kt) hs₃ ht

theorem Stable.anneal {I : Session F α → Prop} (hI : Stable admits I) (hs : I s)
    {schedule : Schedule α} (h : s.anneal schedule = .ok s') : I s' := by
  obtain ⟨t, ht, hkept⟩ := exists_finAnneal_of_anneal h
  exact hI.finAnneal t s' (hkept admits I hI hs) ht

omit [Scalar α] [Annealable F α] in
private theorem keep_fst {I : Session F α → Prop} (hs : I s)
    {e : Except SolverError (Session F α)} (h : ∀ s', e = .ok s' → I s') :
    I (step.keep s e).1 := by
  cases e with
  | error => exact hs
  | ok s' => exact h s' rfl

/-- A request that fails leaves the session as it was, so it keeps everything. -/
theorem Stable.step {I : Session F α → Prop} (hI : Stable admits I) (hs : I s)
    {r : Request F α} (hr : ∀ p d, r ≠ .setProblem p d) (hx : ∀ x, r = .setX x → admits x) :
    I (s.step r).1 := by
  cases r with
  | setProblem p d => exact absurd rfl (hr p d)
  | setTrotters count => exact keep_fst hs fun s' => hI.setTrotters s s' count hs
  | seed value => exact hI.seed s value hs
  | setX x => exact keep_fst hs fun s' => hI.setX s s' x hs (hx x rfl)
  | randomize => exact keep_fst hs fun s' => hI.randomize s s' hs
  | initAnneal => exact keep_fst hs fun s' => hI.initAnneal s s' hs
  | annealOneStep g kt => exact keep_fst hs fun s' => hI.annealOneStep s s' g kt hs
  | finAnneal => exact keep_fst hs fun s' => hI.finAnneal s s' hs
  | solve schedule =>
    change I (s.solve schedule).solver
    unfold solve
    cases h : s.anneal schedule with
    | error => exact hs
    | ok s' => exact hI.anneal hs h

/-- The induction over a run: each problem that is loaded starts it afresh, and all other requests
keep it going. -/
theorem run_induction {I : Option (F.Problem × Direction) → Session F α → Prop}
    (hload : ∀ inForce s s' p d, I inForce s → s.setProblem p d = .ok s' → I (some (p, d)) s')
    (hstable : ∀ inForce, Stable admits (I inForce)) (requests : List (Request F α))
    (hx : ∀ x, .setX x ∈ requests → admits x) (inForce : Option (F.Problem × Direction))
    (h : I inForce s) : I (requests.foldl Request.load inForce) (s.run requests) := by
  induction requests generalizing s inForce with
  | nil => exact h
  | cons r rs ih =>
    refine ih (fun x hmem => hx x (List.mem_cons_of_mem r hmem)) _ ?_
    by_cases hr : ∃ p d, r = .setProblem p d
    · obtain ⟨p, d, rfl⟩ := hr
      change I (Request.load inForce (.setProblem p d)) (step.keep s (s.setProblem p d)).1
      rw [Request.load]
      cases hmodel : Annealable.model p with
      | error e =>
        have hfail : s.setProblem p d = .error e := by simp [setProblem, hmodel, bind, Except.bind]
        rw [hfail]
        exact h
      | ok model =>
        have hok := (setProblem_eq_ok_iff (s := s) (d := d)).mpr ⟨model, hmodel, rfl⟩
        rw [hok]
        exact hload inForce s _ p d h hok
    · have hne (p : F.Problem) (d : Direction) : r ≠ .setProblem p d := fun h => hr ⟨p, d, h⟩
      have hload : Request.load inForce r = inForce := by
        cases r with
        | setProblem p d => exact absurd rfl (hne p d)
        | _ => rfl
      rw [hload]
      exact (hstable inForce).step h hne fun x hrx => hx x (hrx ▸ List.mem_cons_self)

/-- Every session that requests can lead to. -/
theorem run_new (hR : Steady admits R) (entropy : Random.Generator)
    (requests : List (Request F α)) (hx : ∀ x, .setX x ∈ requests → admits x) :
    Sound R ((new entropy : Session F α).run requests) ∧
      Follows (loaded requests) ((new entropy : Session F α).run requests) := by
  constructor
  · exact run_induction (I := fun _ => Sound R) (fun _ s s' p d h hs => h.setProblem hs)
      (fun _ => stable_sound hR) requests hx none (sound_new entropy)
  · exact run_induction (I := Follows) (fun _ s s' p d _ hs => follows_setProblem hs)
      stable_follows requests (fun _ _ => trivial) none rfl

/-- Under an accepted schedule a complete run of a loaded problem succeeds. -/
theorem exists_anneal_eq_ok {model : F.Model} (hmodel : s.model = some model)
    {schedule : Schedule α} (hv : schedule.validate = .ok ()) :
    ∃ s', s.anneal schedule = .ok s' := by
  have hframe : Stable (fun _ => True) fun s : Session F α => s.model = some model :=
    stable_frame fun given _ => given = some model
  have hpos := (Schedule.validate_eq_ok_iff.mp hv).2.2.2.2
  obtain ⟨s₁, h₁⟩ := exists_adoptTrotters_eq_ok hmodel hpos
  have h₂ := randomize_eq_ok_iff.mpr ⟨model, hframe.adoptTrotters hmodel h₁, rfl⟩
  have hmodel₂ := hframe.randomize _ _ (hframe.adoptTrotters hmodel h₁) h₂
  obtain ⟨s₃, h₃, hready⟩ := exists_initAnneal_eq_ok hmodel₂
  obtain ⟨t, ht, hready⟩ := Result.exists_foldlM_eq_ok (I := IsReady model)
    (f := fun s g => Session.annealOneStep g schedule.kt s)
    (fun s g hs => hs.annealOneStep g schedule.kt) schedule.fields hready
  obtain ⟨s', hs'⟩ := hready.finAnneal
  exact ⟨s', anneal_eq_ok_iff.mpr ⟨hv, s₁, h₁, _, h₂, s₃, h₃, t, ht, hs'⟩⟩

/-- A complete run reads out at least one slice. -/
theorem Sound.candidates_ne_nil (h : Sound (fun _ _ _ => True) s) {schedule : Schedule α}
    (hs : s.anneal schedule = .ok s') : s'.candidates ≠ [] := by
  obtain ⟨t, ht, hkept⟩ := exists_finAnneal_of_anneal hs
  have hsound := hkept _ _ (stable_sound steady_true) h
  obtain ⟨model, q, -, -, hq, rfl⟩ := finAnneal_eq_ok_iff.mp ht
  obtain ⟨-, m, -, htrotters, -⟩ := hsound.spins_fit q hq
  have hpos := hsound.trotters_pos m htrotters
  simpa [candidates, slices, htrotters] using hpos.ne'

/-- A new annealer that is given a problem, a seed and an accepted schedule runs to its end, and
what it reads out is the problem that it was given. -/
theorem exists_anneal_of_new (hR : Steady admits R) (entropy : Random.Generator) {p : F.Problem}
    {model : F.Model} (hmodel : Annealable.model p = .ok model) (d : Direction) (seed : UInt64)
    {schedule : Schedule α} (hv : schedule.validate = .ok ()) :
    ∃ fresh t s' : Session F α, (new entropy).setProblem p d = .ok fresh ∧
      (fresh.seed seed).anneal schedule = .ok s' ∧ t.finAnneal = .ok s' ∧ Sound R t ∧
      Follows (some (p, d)) t := by
  obtain ⟨fresh, hfresh⟩ : ∃ fresh, (new entropy : Session F α).setProblem p d = .ok fresh :=
    ⟨_, setProblem_eq_ok_iff.mpr ⟨model, hmodel, rfl⟩⟩
  have hsound := (stable_sound hR).seed _ seed ((sound_new entropy).setProblem hfresh)
  have hfollows := (stable_follows (some (p, d))).seed _ seed (follows_setProblem hfresh)
  have ⟨_, _, hsigned, _⟩ := hfollows
  obtain ⟨s', hs'⟩ := exists_anneal_eq_ok hsigned hv
  obtain ⟨t, ht, hkept⟩ := exists_finAnneal_of_anneal hs'
  exact ⟨fresh, t, s', hfresh, hs', ht, hkept _ _ (stable_sound hR) hsound,
    hkept _ _ (stable_follows _) hfollows⟩

/-- An annealer with a problem completes every run under an accepted schedule, in as many steps as
the schedule has fields. -/
theorem exists_solve_of_loaded (entropy : Random.Generator) {requests : List (Request F α)}
    {p : F.Problem} {d : Direction} (hl : loaded requests = some (p, d)) {schedule : Schedule α}
    (hv : schedule.validate = .ok ()) :
    ∃ outcome, (((new entropy).run requests).solve schedule).result = .ok outcome ∧
      outcome.steps = schedule.stepCount := by
  obtain ⟨hsound, hfollows⟩ := run_new steady_true entropy requests fun _ _ => trivial
  rw [hl] at hfollows
  obtain ⟨given, -, hmodel, -⟩ := id hfollows
  obtain ⟨s', hs'⟩ := exists_anneal_eq_ok hmodel hv
  obtain ⟨outcome, houtcome, hsteps⟩ := Outcome.exists_steps_of_collect s'.direction
    (hsound.candidates_ne_nil hs') schedule.stepCount
  refine ⟨outcome, ?_, hsteps⟩
  rw [solve, hs']
  exact houtcome

/-- So does a new annealer that is given a problem and a seed. -/
theorem exists_solve_of_new (entropy : Random.Generator) {p : F.Problem} {model : F.Model}
    (hmodel : Annealable.model p = .ok model) (d : Direction) (seed : UInt64)
    {schedule : Schedule α} (hv : schedule.validate = .ok ()) :
    ∃ (fresh : Session F α) (outcome : Outcome α), (new entropy).setProblem p d = .ok fresh ∧
      ((fresh.seed seed).solve schedule).result = .ok outcome := by
  obtain ⟨fresh, hfresh⟩ : ∃ fresh, (new entropy : Session F α).setProblem p d = .ok fresh :=
    ⟨_, setProblem_eq_ok_iff.mpr ⟨model, hmodel, rfl⟩⟩
  have hrun : (new entropy : Session F α).run [.setProblem p d, .seed seed] = fresh.seed seed := by
    show (step.keep _ ((new entropy : Session F α).setProblem p d)).1.seed seed = _
    rw [hfresh]
    rfl
  have hl : loaded ([.setProblem p d, .seed seed] : List (Request F α)) = some (p, d) :=
    loaded_setProblem hmodel d []
  obtain ⟨outcome, houtcome, -⟩ := exists_solve_of_loaded entropy hl hv
  exact ⟨fresh, outcome, hfresh, hrun ▸ houtcome⟩

end Session

end Qubo.Anneal

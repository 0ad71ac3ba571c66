import Mathlib.Tactic
import Qubo.Anneal.Session
import Qubo.Proofs.Result

/-! Annealing sessions under any sequence of requests: what each request can do, which facts about
slices and spins every reachable session keeps, and what a session that is read out shows. -/
namespace Qubo.Anneal
variable {F : Family} {α : Type}

namespace Session
variable {s s' : Session F α}

theorem setTrotters_eq_ok_iff {count : ℕ} :
    s.setTrotters count = .ok s' ↔ 0 < count ∧ s.model.isSome ∧
      s' = { s with trotters := some count, spins := none, prepared := false } := by
  unfold setTrotters
  rcases Nat.eq_zero_or_pos count with rfl | hpos
  · simp
  · rw [if_neg hpos.ne']
    cases s.model <;> simp [hpos, eq_comm]

variable [Annealable F α]

theorem setProblem_eq_ok_iff {p : F.Problem} {d : Direction} :
    s.setProblem p d = .ok s' ↔ ∃ model, Annealable.model p = .ok model ∧
      s' = { s with
        direction := d, model := some (Annealable.signed model d), spins := none
        prepared := false } := by
  unfold setProblem
  cases Annealable.model p with
  | error e => simp [bind, Except.bind]
  | ok model => simp [bind, Except.bind, pure, Except.pure, eq_comm]

theorem setX_eq_ok_iff {x : F.Solution} :
    s.setX x = .ok s' ↔ ∃ model, s.model = some model ∧ Annealable.checkStart model x = .ok () ∧
      s' = { s.ensureTrotters model with
        spins := some (Annealable.start (s.ensureTrotters model).slices x) } := by
  unfold setX
  cases hmodel : s.model with
  | none => simp
  | some model =>
    cases hcheck : Annealable.checkStart model x with
    | error e => simp [hcheck, bind, Except.bind]
    | ok u => simp [hcheck, bind, Except.bind, pure, Except.pure, eq_comm]

theorem randomize_eq_ok_iff :
    s.randomize = .ok s' ↔ ∃ model, s.model = some model ∧ s' = s.drawSpins model := by
  unfold randomize
  cases s.model <;> simp [eq_comm]

theorem initAnneal_eq_ok_iff :
    s.initAnneal = .ok s' ↔ ∃ model t, s.model = some model ∧
      t = ({ s with rng := some s.generator } : Session F α).ensureTrotters model ∧
      s' = { (if t.spins.isSome then t else t.drawSpins model) with prepared := true } := by
  unfold initAnneal
  cases s.model with
  | none => simp
  | some model =>
    constructor
    · intro h
      exact ⟨model, _, rfl, rfl, (Except.ok.inj h).symm⟩
    · rintro ⟨model', t, hmodel, rfl, rfl⟩
      obtain rfl := Option.some.inj hmodel
      rfl

theorem annealOneStep_eq_ok_iff {g kt : α} :
    s.annealOneStep g kt = .ok s' ↔ ∃ model rng q, s.prepared = true ∧ s.model = some model ∧
      s.rng = some rng ∧ s.spins = some q ∧
      s' = { s with
        rng := some (Annealable.step model s.slices g kt q rng).2
        spins := some (Annealable.step model s.slices g kt q rng).1 } := by
  unfold annealOneStep
  cases hprepared : s.prepared <;> cases hmodel : s.model <;> cases hrng : s.rng <;>
    cases hspins : s.spins <;> simp [eq_comm]
  exact ⟨Except.ok.inj, congrArg Except.ok⟩

theorem finAnneal_eq_ok_iff :
    s.finAnneal = .ok s' ↔ ∃ model q, s.prepared = true ∧ s.model = some model ∧
      s.spins = some q ∧ s' = { s with
        readings := (List.range s.slices).map (Annealable.read model s.direction q) } := by
  unfold finAnneal
  cases hprepared : s.prepared <;> cases hmodel : s.model <;> cases hspins : s.spins <;>
    simp [eq_comm]

section EnsureTrotters
variable (s : Session F α) (model : F.Model)

@[simp] theorem model_ensureTrotters : (s.ensureTrotters model).model = s.model := by
  unfold ensureTrotters
  split <;> rfl

@[simp] theorem direction_ensureTrotters : (s.ensureTrotters model).direction = s.direction := by
  unfold ensureTrotters
  split <;> rfl

@[simp] theorem rng_ensureTrotters : (s.ensureTrotters model).rng = s.rng := by
  unfold ensureTrotters
  split <;> rfl

/-- The number of slices that has been chosen, or the default. -/
theorem trotters_ensureTrotters : (s.ensureTrotters model).trotters =
    some (s.trotters.getD (defaultTrotters (Annealable.extent model).variableCount)) := by
  unfold ensureTrotters
  split
  next h => rw [h, Option.getD_some]
  next h => rw [h, Option.getD_none]

theorem slices_ensureTrotters {m : ℕ} (h : (s.ensureTrotters model).trotters = some m) :
    (s.ensureTrotters model).slices = m := by
  rw [slices, h, Option.getD_some]

end EnsureTrotters

section DrawSpins
variable (s : Session F α) (model : F.Model)

theorem drawSpins_eq : s.drawSpins model = { s.ensureTrotters model with
    rng := some (Annealable.random model (s.ensureTrotters model).slices
      (s.ensureTrotters model).generator).2
    spins := some (Annealable.random model (s.ensureTrotters model).slices
      (s.ensureTrotters model).generator).1 } := rfl

@[simp] theorem model_drawSpins : (s.drawSpins model).model = s.model :=
  model_ensureTrotters s model

@[simp] theorem direction_drawSpins : (s.drawSpins model).direction = s.direction :=
  direction_ensureTrotters s model

end DrawSpins

end Session

namespace Session

/-- What every reachable session satisfies. -/
structure Sound (R : F.Model → ℕ → F.Spins → Prop) (s : Session F α) : Prop where
  trotters_pos : ∀ m, s.trotters = some m → 0 < m
  spins_fit : ∀ q, s.spins = some q → ∃ model m, s.model = some model ∧ s.trotters = some m ∧
    R model m q
  prepared : s.prepared = true → s.rng.isSome ∧ s.spins.isSome

section Sound
variable {R : F.Model → ℕ → F.Spins → Prop} {s : Session F α}

theorem sound_new (entropy : Random.Generator) : Sound R (new entropy : Session F α) where
  trotters_pos := by simp [new]
  spins_fit := by simp [new]
  prepared := by simp [new]

/-- Without spins there is nothing to fit and nothing to be prepared. -/
theorem Sound.clearSpins (h : Sound R s) (d : Direction) (model : Option F.Model) :
    Sound R { s with direction := d, model := model, spins := none, prepared := false } where
  trotters_pos := h.trotters_pos
  spins_fit := by simp
  prepared := by simp

theorem Sound.setSpins {model : F.Model} {m : ℕ} {q : F.Spins} (h : Sound R s)
    (hmodel : s.model = some model) (htrotters : s.trotters = some m) (hq : R model m q)
    {rng : Option Random.Generator} (hrng : s.rng.isSome → rng.isSome) :
    Sound R { s with rng := rng, spins := some q } where
  trotters_pos := h.trotters_pos
  spins_fit := by
    rintro q' hq'
    obtain rfl := Option.some.inj hq'
    exact ⟨model, m, hmodel, htrotters, hq⟩
  prepared hprepared := ⟨hrng (h.prepared hprepared).1, rfl⟩

end Sound

end Session

variable [Annealable F α]

/-- A relation between a model, a number of slices and spins that holds of all fresh spins and
that steps keep; `admits` restricts the assignments that the caller may start from. -/
structure Steady (admits : F.Solution → Prop) (R : F.Model → ℕ → F.Spins → Prop) : Prop where
  start : ∀ model m x, Annealable.checkStart model x = .ok () → admits x →
    R model m (Annealable.start m x)
  random : ∀ model m rng, R model m (Annealable.random model m rng).1
  step : ∀ model m g kt q rng, R model m q → R model m (Annealable.step model m g kt q rng).1

theorem steady_true : Steady (F := F) (fun _ => True) fun _ _ _ => True :=
  ⟨fun _ _ _ _ _ => trivial, fun _ _ _ => trivial, fun _ _ _ _ _ _ _ => trivial⟩

theorem Steady.and {admits : F.Solution → Prop} {R R' : F.Model → ℕ → F.Spins → Prop}
    (h : Steady (fun _ => True) R) (h' : Steady admits R') :
    Steady admits fun model m q => R model m q ∧ R' model m q where
  start model m x hcheck hx := ⟨h.start model m x hcheck trivial, h'.start model m x hcheck hx⟩
  random model m rng := ⟨h.random model m rng, h'.random model m rng⟩
  step _ _ _ _ _ _ hq := ⟨h.step _ _ _ _ _ _ hq.1, h'.step _ _ _ _ _ _ hq.2⟩

namespace Session

/-- A property that every request keeps but the loading of a problem. -/
structure Stable (admits : F.Solution → Prop) (I : Session F α → Prop) : Prop where
  setTrotters : ∀ s s' count, I s → s.setTrotters count = .ok s' → I s'
  seed : ∀ s value, I s → I (s.seed value)
  setX : ∀ s s' x, I s → admits x → s.setX x = .ok s' → I s'
  randomize : ∀ s s', I s → s.randomize = .ok s' → I s'
  initAnneal : ∀ s s', I s → s.initAnneal = .ok s' → I s'
  annealOneStep : ∀ s s' g kt, I s → s.annealOneStep g kt = .ok s' → I s'
  finAnneal : ∀ s s', I s → s.finAnneal = .ok s' → I s'

section Stable
variable {admits : F.Solution → Prop} {R : F.Model → ℕ → F.Spins → Prop} {s s' : Session F α}

theorem Sound.ensureTrotters (h : Sound R s) (model : F.Model) :
    Sound R (s.ensureTrotters model) := by
  unfold Session.ensureTrotters
  split
  next => exact h
  next =>
    refine ⟨?_, by simp, by simp⟩
    rintro m hm
    obtain rfl := Option.some.inj hm
    exact lt_max_of_lt_right one_pos

theorem Sound.drawSpins (hR : Steady admits R) (h : Sound R s) {model : F.Model}
    (hmodel : s.model = some model) : Sound R (s.drawSpins model) := by
  have htrotters := trotters_ensureTrotters s model
  rw [drawSpins_eq]
  refine (h.ensureTrotters model).setSpins ((model_ensureTrotters s model).trans hmodel)
    htrotters ?_ fun _ => rfl
  rw [slices_ensureTrotters s model htrotters]
  exact hR.random _ _ _

/-- Whatever steps keep of spins, all requests keep of the session. -/
theorem stable_sound (hR : Steady admits R) : Stable admits (Sound R : Session F α → Prop) where
  setTrotters s s' count h hs := by
    obtain ⟨hpos, -, rfl⟩ := setTrotters_eq_ok_iff.mp hs
    refine ⟨?_, by simp, by simp⟩
    rintro m hm
    obtain rfl := Option.some.inj hm
    exact hpos
  seed s value h := ⟨h.trotters_pos, h.spins_fit, fun hp => ⟨rfl, (h.prepared hp).2⟩⟩
  setX s s' x h hx hs := by
    obtain ⟨model, hmodel, hcheck, rfl⟩ := setX_eq_ok_iff.mp hs
    have htrotters := trotters_ensureTrotters s model
    refine (h.ensureTrotters model).setSpins ((model_ensureTrotters s model).trans hmodel)
      htrotters ?_ id
    rw [slices_ensureTrotters s model htrotters]
    exact hR.start _ _ _ hcheck hx
  randomize s s' h hs := by
    obtain ⟨model, hmodel, rfl⟩ := randomize_eq_ok_iff.mp hs
    exact h.drawSpins hR hmodel
  initAnneal s s' h hs := by
    obtain ⟨model, t, hmodel, rfl, rfl⟩ := initAnneal_eq_ok_iff.mp hs
    have hseeded : Sound R { s with rng := some s.generator } :=
      ⟨h.trotters_pos, h.spins_fit, fun hp => ⟨rfl, (h.prepared hp).2⟩⟩
    have ht := hseeded.ensureTrotters model
    split_ifs with hspins
    · exact ⟨ht.trotters_pos, ht.spins_fit, fun _ => ⟨by simp, hspins⟩⟩
    · have hu := ht.drawSpins hR ((model_ensureTrotters _ model).trans hmodel)
      exact ⟨hu.trotters_pos, hu.spins_fit, fun _ => ⟨rfl, rfl⟩⟩
  annealOneStep s s' g kt h hs := by
    obtain ⟨model, rng, q, -, hmodel, hrng, hq, rfl⟩ := annealOneStep_eq_ok_iff.mp hs
    obtain ⟨model', m, hmodel', htrotters, hfit⟩ := h.spins_fit q hq
    obtain rfl := Option.some.inj (hmodel'.symm.trans hmodel)
    refine h.setSpins hmodel htrotters ?_ fun _ => rfl
    rw [slices, htrotters, Option.getD_some]
    exact hR.step _ _ _ _ _ _ hfit
  finAnneal s s' h hs := by
    obtain ⟨model, q, -, -, -, rfl⟩ := finAnneal_eq_ok_iff.mp hs
    exact ⟨h.trotters_pos, h.spins_fit, h.prepared⟩

/-- No request but the loading of a problem changes the model or the direction. -/
theorem stable_frame (I : Option F.Model → Direction → Prop) :
    Stable (fun _ => True) fun s : Session F α => I s.model s.direction where
  setTrotters s s' count h hs := by
    obtain ⟨-, -, rfl⟩ := setTrotters_eq_ok_iff.mp hs
    exact h
  seed s value h := h
  setX s s' x h _ hs := by
    obtain ⟨model, -, -, rfl⟩ := setX_eq_ok_iff.mp hs
    simpa using h
  randomize s s' h hs := by
    obtain ⟨model, -, rfl⟩ := randomize_eq_ok_iff.mp hs
    simpa using h
  initAnneal s s' h hs := by
    obtain ⟨model, t, -, rfl, rfl⟩ := initAnneal_eq_ok_iff.mp hs
    split_ifs <;> simpa using h
  annealOneStep s s' g kt h hs := by
    obtain ⟨model, rng, q, -, -, -, -, rfl⟩ := annealOneStep_eq_ok_iff.mp hs
    exact h
  finAnneal s s' h hs := by
    obtain ⟨model, q, -, -, -, rfl⟩ := finAnneal_eq_ok_iff.mp hs
    exact h

end Stable

end Session

end Qubo.Anneal

import Mathlib.Tactic
import Qubo.Proofs.Anneal.Balance.Moves
import Qubo.Proofs.Anneal.Trotters

/-! Two annealers side by side that are asked for the same, on problems of one size: coefficients,
directions, fields and temperatures may differ, and the stages that both go through do not. -/
namespace Qubo

/-- Schedules for one number of slices and of steps, both of them accepted or both refused. -/
structure Schedule.Alike {α : Type} [Scalar α] (schedule schedule' : Schedule α) : Prop where
  trotters : schedule.trotters = schedule'.trotters
  stepCount : schedule.stepCount = schedule'.stepCount
  validate : Result.Both (fun _ _ => True) schedule.validate schedule'.validate

namespace Anneal
variable {F : Family} {α β : Type}

section Requests
variable [Scalar α] [Annealable F α]

/-- The extent of a problem; none of one that is refused. -/
def extentOf (p : F.Problem) : Option Extent :=
  (Annealable.model (F := F) p).toOption.map Annealable.extent

/-- Requests of one kind that may differ in coefficients, directions, fields and temperatures. -/
inductive Request.Alike : Request F α → Request F α → Prop
  | setProblem {p p' : F.Problem} (d d' : Direction) (h : extentOf (F := F) p = extentOf p') :
      Alike (.setProblem p d) (.setProblem p' d')
  | setTrotters (count : ℕ) : Alike (.setTrotters count) (.setTrotters count)
  | seed (value : UInt64) : Alike (.seed value) (.seed value)
  | setX (x : F.Solution) : Alike (.setX x) (.setX x)
  | randomize : Alike .randomize .randomize
  | initAnneal : Alike .initAnneal .initAnneal
  | annealOneStep (g g' kt kt' : α) : Alike (.annealOneStep g kt) (.annealOneStep g' kt')
  | finAnneal : Alike .finAnneal .finAnneal
  | solve {schedule schedule' : Schedule α} (h : schedule.Alike schedule') :
      Alike (.solve schedule) (.solve schedule')

end Requests

/-- What a graph family draws, it draws for the size of a problem: the same spins at random, and the
same proposals in a step, which leaves the same generator. -/
structure Oblivious [Annealable F α]
    (moves : F.Model → ℕ → α → α → F.Spins → Random.Generator → List (Move F.Spins β α)) :
    Prop where
  extent_signed : ∀ (model : F.Model) (d : Direction),
    Annealable.extent (Annealable.signed model d) = Annealable.extent model
  checkStart : ∀ {model model' : F.Model}, Annealable.extent model = Annealable.extent model' →
    ∀ x, Annealable.checkStart model x = Annealable.checkStart model' x
  random : ∀ {model model' : F.Model}, Annealable.extent model = Annealable.extent model' →
    ∀ m rng, Annealable.random model m rng = Annealable.random model' m rng
  rng_step : ∀ {model model' : F.Model}, Annealable.extent model = Annealable.extent model' →
    ∀ m g g' kt kt' q q' rng, (Annealable.step model m g kt q rng).2 =
      (Annealable.step model' m g' kt' q' rng).2
  proposals : ∀ {model model' : F.Model}, Annealable.extent model = Annealable.extent model' →
    ∀ m g g' kt kt' q q' rng, (moves model m g kt q rng).map Move.proposal =
      (moves model' m g' kt' q' rng).map Move.proposal

theorem none_or_some {σ τ : Type} {x : Option σ} {y : Option τ}
    (h : x.isSome = y.isSome) : x = none ∧ y = none ∨ ∃ a b, x = some a ∧ y = some b := by
  cases x <;> cases y <;> simp_all

namespace Session
variable [Annealable F α] {s s' : Session F α} {tied : Prop}

/-- Annealers at one stage, on problems of one extent; tied ones have one generator. -/
structure Alike (tied : Prop) (s s' : Session F α) : Prop where
  extent : s.model.map Annealable.extent = s'.model.map Annealable.extent
  trotters : s.trotters = s'.trotters
  spins : s.spins.isSome = s'.spins.isSome
  prepared : s.prepared = s'.prepared
  seeded : s.rng.isSome = s'.rng.isSome
  -- Nothing is said of generators before the seed, so that one set of lemmas serves the requests
  -- before it and after it.
  rng : tied → ∃ rng, s.rng = some rng ∧ s'.rng = some rng

theorem alike_new (entropy entropy' : Random.Generator) :
    Alike False (new entropy : Session F α) (new entropy') :=
  ⟨rfl, rfl, rfl, rfl, rfl, False.elim⟩

namespace Alike
variable {moves : F.Model → ℕ → α → α → F.Spins → Random.Generator → List (Move F.Spins β α)}

theorem slices (h : Alike tied s s') : s.slices = s'.slices := by
  rw [Session.slices, Session.slices, h.trotters]

theorem generator (h : Alike tied s s') (htied : tied) : s.generator = s'.generator := by
  obtain ⟨rng, hrng, hrng'⟩ := h.rng htied
  rw [Session.generator, Session.generator, hrng, hrng', Option.getD_some, Option.getD_some]

/-- Seeding ties annealers to each other. -/
theorem seed {tied' : Prop} (h : Alike tied s s') (value : UInt64) :
    Alike tied' (s.seed value) (s'.seed value) :=
  ⟨h.extent, h.trotters, h.spins, h.prepared, rfl, fun _ => ⟨_, rfl, rfl⟩⟩

theorem models (h : Alike tied s s') : s.model = none ∧ s'.model = none ∨
    ∃ model model', s.model = some model ∧ s'.model = some model' ∧
      Annealable.extent model = Annealable.extent model' := by
  have hextent := h.extent
  cases hmodel : s.model <;> cases hmodel' : s'.model <;> simp_all

theorem ensureTrotters {model model' : F.Model} (h : Alike tied s s')
    (hextent : Annealable.extent model = Annealable.extent model') :
    Alike tied (s.ensureTrotters model) (s'.ensureTrotters model') := by
  unfold Session.ensureTrotters
  rw [← h.trotters, hextent]
  cases s.trotters with
  | none => exact ⟨h.extent, rfl, rfl, rfl, h.seeded, h.rng⟩
  | some m => exact h

theorem drawSpins (hF : Oblivious moves) {model model' : F.Model} (h : Alike tied s s')
    (hextent : Annealable.extent model = Annealable.extent model') :
    Alike tied (s.drawSpins model) (s'.drawSpins model') := by
  have ht := h.ensureTrotters hextent
  rw [drawSpins_eq, drawSpins_eq, ht.slices, hF.random hextent]
  exact ⟨ht.extent, ht.trotters, rfl, ht.prepared, rfl,
    fun htied => ⟨_, rfl, by rw [ht.generator htied]⟩⟩

theorem setProblem (hF : Oblivious moves) (h : Alike tied s s') {p p' : F.Problem}
    (hp : extentOf (F := F) p = extentOf p') (d d' : Direction) :
    Result.Both (Alike tied) (s.setProblem p d) (s'.setProblem p' d') := by
  unfold Session.setProblem
  unfold extentOf at hp
  cases hmodel : Annealable.model (F := F) p with
  | error e =>
    cases hmodel' : Annealable.model (F := F) p' with
    | error e' => exact .error e e'
    | ok model' => simp [hmodel, hmodel', Except.toOption] at hp
  | ok model =>
    cases hmodel' : Annealable.model (F := F) p' with
    | error e' => simp [hmodel, hmodel', Except.toOption] at hp
    | ok model' =>
      rw [hmodel, hmodel'] at hp
      refine .ok ⟨?_, h.trotters, rfl, rfl, h.seeded, h.rng⟩
      simp only [Option.map_some, hF.extent_signed]
      exact hp

theorem setTrotters (h : Alike tied s s') (count : ℕ) :
    Result.Both (Alike tied) (s.setTrotters count) (s'.setTrotters count) := by
  unfold Session.setTrotters
  split_ifs
  · exact .error _ _
  · rcases h.models with ⟨hmodel, hmodel'⟩ | ⟨model, model', hmodel, hmodel', -⟩
    · rw [hmodel, hmodel']
      exact .error _ _
    · rw [hmodel, hmodel']
      exact .ok ⟨hmodel ▸ hmodel' ▸ h.extent, rfl, rfl, rfl, h.seeded, h.rng⟩

theorem setX (hF : Oblivious moves) (h : Alike tied s s') (x : F.Solution) :
    Result.Both (Alike tied) (s.setX x) (s'.setX x) := by
  unfold Session.setX
  rcases h.models with ⟨hmodel, hmodel'⟩ | ⟨model, model', hmodel, hmodel', hextent⟩
  · rw [hmodel, hmodel']
    exact .error _ _
  · have ht := h.ensureTrotters hextent
    simp only [hmodel, hmodel', hF.checkStart hextent]
    cases Annealable.checkStart model' x with
    | error e => exact .error e e
    | ok u => exact .ok ⟨ht.extent, ht.trotters, rfl, ht.prepared, ht.seeded, ht.rng⟩

theorem randomize (hF : Oblivious moves) (h : Alike tied s s') :
    Result.Both (Alike tied) s.randomize s'.randomize := by
  unfold Session.randomize
  rcases h.models with ⟨hmodel, hmodel'⟩ | ⟨model, model', hmodel, hmodel', hextent⟩
  · rw [hmodel, hmodel']
    exact .error _ _
  · rw [hmodel, hmodel']
    exact .ok (h.drawSpins hF hextent)

/-- Marking annealers as prepared leaves them alike. -/
theorem prepare (h : Alike tied s s') :
    Alike tied { s with prepared := true } { s' with prepared := true } :=
  ⟨h.extent, h.trotters, h.spins, rfl, h.seeded, h.rng⟩

theorem withGenerator (h : Alike tied s s') : Alike tied { s with rng := some s.generator }
    { s' with rng := some s'.generator } :=
  ⟨h.extent, h.trotters, h.spins, h.prepared, rfl,
    fun htied => ⟨_, rfl, congrArg some (h.generator htied).symm⟩⟩

theorem initAnneal (hF : Oblivious moves) (h : Alike tied s s') :
    Result.Both (Alike tied) s.initAnneal s'.initAnneal := by
  rcases h.models with ⟨hmodel, hmodel'⟩ | ⟨model, model', hmodel, hmodel', hextent⟩
  · rw [Session.initAnneal, Session.initAnneal, hmodel, hmodel']
    exact .error _ _
  · have ht := h.withGenerator.ensureTrotters hextent
    rw [initAnneal_eq_ok_iff.mpr ⟨model, _, hmodel, rfl, rfl⟩,
      initAnneal_eq_ok_iff.mpr ⟨model', _, hmodel', rfl, rfl⟩, ← ht.spins]
    split_ifs
    · exact .ok ht.prepare
    · exact .ok (ht.drawSpins hF hextent).prepare

theorem annealOneStep (hF : Oblivious moves) (h : Alike tied s s') (g g' kt kt' : α) :
    Result.Both (Alike tied) (s.annealOneStep g kt) (s'.annealOneStep g' kt') := by
  unfold Session.annealOneStep
  rw [← h.prepared, ← h.slices]
  cases s.prepared with
  | false => exact .error _ _
  | true =>
    rcases h.models with ⟨hmodel, hmodel'⟩ | ⟨model, model', hmodel, hmodel', hextent⟩
    · rw [hmodel, hmodel']
      exact .error _ _
    rcases none_or_some h.seeded with ⟨hrng, hrng'⟩ | ⟨rng, rng', hrng, hrng'⟩
    · rw [hmodel, hmodel', hrng, hrng']
      exact .error _ _
    rcases none_or_some h.spins with ⟨hq, hq'⟩ | ⟨q, q', hq, hq'⟩
    · rw [hmodel, hmodel', hrng, hrng', hq, hq']
      exact .error _ _
    · rw [hmodel, hmodel', hrng, hrng', hq, hq']
      refine .ok ⟨congrArg some hextent, h.trotters, rfl, rfl, rfl, fun htied => ?_⟩
      obtain ⟨rng₀, hrng₀, hrng₀'⟩ := h.rng htied
      obtain rfl : rng = rng₀ := Option.some.inj (hrng.symm.trans hrng₀)
      obtain rfl : rng' = rng := Option.some.inj (hrng'.symm.trans hrng₀')
      exact ⟨_, rfl, congrArg some (hF.rng_step hextent ..).symm⟩

theorem finAnneal (h : Alike tied s s') :
    Result.Both (Alike tied) s.finAnneal s'.finAnneal := by
  unfold Session.finAnneal
  rw [← h.prepared]
  cases s.prepared with
  | false => exact .error _ _
  | true =>
    rcases h.models with ⟨hmodel, hmodel'⟩ | ⟨model, model', hmodel, hmodel', hextent⟩
    · rw [hmodel, hmodel']
      exact .error _ _
    rcases none_or_some h.spins with ⟨hq, hq'⟩ | ⟨q, q', hq, hq'⟩
    · rw [hmodel, hmodel', hq, hq']
      exact .error _ _
    · rw [hmodel, hmodel', hq, hq']
      exact .ok ⟨congrArg some hextent, h.trotters, rfl, rfl, h.seeded, h.rng⟩

/-- A request that both refuse changes neither. -/
theorem keep (h : Alike tied s s') {x x' : Except SolverError (Session F α)}
    (hx : Result.Both (Alike tied) x x') :
    Alike tied (step.keep s x).1 (step.keep s' x').1 := by
  cases hx with
  | error => exact h
  | ok hx => exact hx

section Requests
variable [Scalar α]

theorem anneal (hF : Oblivious moves) (h : Alike tied s s') {schedule schedule' : Schedule α}
    (hschedule : schedule.Alike schedule') :
    Result.Both (Alike tied) (s.anneal schedule) (s'.anneal schedule') := by
  rw [anneal_eq, anneal_eq]
  refine hschedule.validate.bind fun _ _ _ => ?_
  have hadopted : Result.Both (Alike tied) (s.adoptTrotters schedule.trotters)
      (s'.adoptTrotters schedule'.trotters) := by
    rw [← hschedule.trotters]
    cases schedule.trotters with
    | none => exact .ok h
    | some count => exact h.setTrotters count
  refine hadopted.bind fun _ _ h => (h.randomize hF).bind fun _ _ h => ?_
  refine (h.initAnneal hF).bind fun _ _ h => ?_
  have hsteps := Result.Both.foldlM (R := Alike tied)
    (fun _ _ g g' h => h.annealOneStep hF g g' schedule.kt schedule'.kt) hschedule.stepCount h
  exact hsteps.bind fun _ _ h => h.finAnneal

theorem solve (h : Alike tied s s') {schedule schedule' : Schedule α}
    (hannealed : Result.Both (Alike tied) (s.anneal schedule) (s'.anneal schedule')) :
    Alike tied (s.solve schedule).solver (s'.solve schedule').solver := by
  unfold Session.solve
  generalize s.anneal schedule = x, s'.anneal schedule' = x' at hannealed
  cases hannealed with
  | error => exact h
  | ok hannealed => exact hannealed

/-- Annealers stay alike when they are asked for the same. -/
theorem step (hF : Oblivious moves) (h : Alike tied s s') {r r' : Request F α}
    (hr : r.Alike r') : Alike tied (s.step r).1 (s'.step r').1 := by
  cases hr with
  | setProblem d d' hp => exact h.keep (h.setProblem hF hp d d')
  | setTrotters count => exact h.keep (h.setTrotters count)
  | seed value => exact h.seed value
  | setX x => exact h.keep (h.setX hF x)
  | randomize => exact h.keep (h.randomize hF)
  | initAnneal => exact h.keep (h.initAnneal hF)
  | annealOneStep g g' kt kt' => exact h.keep (h.annealOneStep hF g g' kt kt')
  | finAnneal => exact h.keep h.finAnneal
  | solve hschedule => exact h.solve (h.anneal hF hschedule)

theorem run (hF : Oblivious moves) (h : Alike tied s s') {requests requests' : List (Request F α)}
    (hr : List.Forall₂ Request.Alike requests requests') :
    Alike tied (s.run requests) (s'.run requests') := by
  induction hr generalizing s s' with
  | nil => exact h
  | cons hr _ ih => exact ih (h.step hF hr)

/-- Once both have been seeded alike, annealers are tied, whatever generator either of them has
had. -/
theorem run_seeded (hF : Oblivious moves) (entropy entropy' : Random.Generator) (value : UInt64)
    {before before' : List (Request F α)} (h : List.Forall₂ Request.Alike before before') :
    Alike True ((new entropy).run (before ++ [.seed value]))
      ((new entropy').run (before' ++ [.seed value])) := by
  rw [run_append, run_append]
  exact ((alike_new entropy entropy').run hF h).seed value

end Requests

end Alike

end Session

end Anneal

end Qubo

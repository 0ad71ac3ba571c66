import Mathlib.Tactic
import Qubo.Proofs.Anneal.Run
import Qubo.Proofs.Anneal.Store.Memory

/-! What is stored is the session: every action on storage does what the request of that name does
to the session that the storage shows, keeps the flags and the room for spins in step with each
other, and can fault only where there is no room for as many slices as have been asked for. -/
namespace Qubo.Anneal
variable {F : Family} {α β γ : Type}

/-- The shapes that models and spins of a graph family are stored in. -/
structure Layout (F : Family) where
  /-- How the parts of a model go together. -/
  Shaped : F.Model → Prop
  /-- Whether spins are there for every variable in every slice. -/
  Fits : F.Model → ℕ → F.Spins → Prop
  /-- Whether there is room for a number of slices. -/
  Room : F.Model → ℕ → Prop

namespace Session
variable {s s' s'' : Session F α}

/-- There is room for the slices of a session. -/
def HasRoom (L : Layout F) (s : Session F α) : Prop :=
  ∀ model m, s.model = some model → s.trotters = some m → L.Room model m

/-- The problem and a number of slices that has been chosen stay. -/
structure KeepsSize (s s' : Session F α) : Prop where
  model : s'.model = s.model
  trotters : ∀ m, s.trotters = some m → s'.trotters = some m

theorem KeepsSize.trans (h : KeepsSize s s') (h' : KeepsSize s' s'') : KeepsSize s s'' :=
  ⟨h'.model.trans h.model, fun m hm => h'.trotters m (h.trotters m hm)⟩

theorem HasRoom.of_keepsSize {L : Layout F} (h : s'.HasRoom L) (hkeeps : KeepsSize s s') :
    s.HasRoom L :=
  fun model m hmodel hm => h model m (hkeeps.model.trans hmodel) (hkeeps.trotters m hm)

end Session

namespace Memory

/-- What flags promise of the rest. -/
structure Valid (L : Layout F) (st : Memory F α) : Prop where
  slices_pos : st.slicesChosen = true → 0 < st.slices
  shaped : ∀ model, st.model = some model → L.Shaped model
  fits : st.slicesChosen = true → ∀ model, st.model = some model → L.Fits model st.slices st.spins
  spins_set : st.spinsSet = true → st.slicesChosen = true ∧ st.model.isSome
  prepared : st.prepared = true →
    st.model.isSome ∧ st.rng.isSome ∧ st.slicesChosen = true ∧ st.spinsSet = true

/-- The session that storage shows: slices and spins are there once their flags are set. -/
structure Shows (st : Memory F α) (s : Session F α) : Prop where
  rng : s.rng = st.rng
  entropy : s.entropy = st.entropy
  direction : s.direction = st.direction
  model : s.model = st.model
  trotters : s.trotters = if st.slicesChosen then some st.slices else none
  spins : s.spins = if st.spinsSet then some st.spins else none
  prepared : s.prepared = st.prepared
  energies : s.energies = st.energies
  solutions : s.solutions = st.solutions
  signs : s.signs = st.signs

/-- The session is stored as flags promise. -/
structure Stores (L : Layout F) (st : Memory F α) (s : Session F α) : Prop where
  valid : st.Valid L
  shows : st.Shows s

section Stores
variable {L : Layout F} {st : Memory F α} {s : Session F α}

theorem stores_new [Storable F α] (entropy : Random.Generator) :
    Stores L (new entropy : Memory F α) (Session.new entropy) where
  valid := ⟨by simp [new], by simp [new], by simp [new], by simp [new], by simp [new]⟩
  shows := ⟨rfl, rfl, rfl, rfl, rfl, rfl, rfl, rfl, rfl, rfl⟩

theorem Stores.model (h : Stores L st s) {model : F.Model}
    (hmodel : s.model = some model) : st.model = some model :=
  h.shows.model.symm.trans hmodel

theorem Stores.chosen (h : Stores L st s) {m : ℕ} (hm : s.trotters = some m) :
    st.slicesChosen = true ∧ st.slices = m := by
  have htrotters := h.shows.trotters.symm.trans hm
  split_ifs at htrotters with hchosen
  exact ⟨hchosen, Option.some.inj htrotters⟩

theorem Stores.slices (h : Stores L st s) (hchosen : st.slicesChosen = true) :
    s.slices = st.slices := by
  rw [Session.slices, h.shows.trotters, if_pos hchosen, Option.getD_some]

theorem Stores.spinsSet (h : Stores L st s) : st.spinsSet = s.spins.isSome := by
  rw [h.shows.spins]
  cases st.spinsSet <;> rfl

theorem Stores.spins (h : Stores L st s) (hset : st.spinsSet = true) {q : F.Spins}
    (hq : s.spins = some q) : q = st.spins := by
  rw [h.shows.spins, if_pos hset] at hq
  exact (Option.some.inj hq).symm

theorem Stores.generator (h : Stores L st s) :
    s.generator = st.rng.getD st.entropy := by
  rw [Session.generator, h.shows.rng, h.shows.entropy]

theorem Stores.setRng (h : Stores L st s) (g : Random.Generator) :
    Stores L { st with rng := some g } { s with rng := some g } where
  valid := { h.valid with prepared := fun hp => ⟨(h.valid.prepared hp).1, rfl,
    (h.valid.prepared hp).2.2⟩ }
  shows := { h.shows with rng := rfl }

/-- Spins that fit are stored in place of those that were there. -/
theorem Stores.setSpins (h : Stores L st s) {model : F.Model}
    (hmodel : s.model = some model) (hchosen : st.slicesChosen = true) {q : F.Spins}
    (hq : L.Fits model st.slices q) {set : Bool} (hset : set = true) :
    Stores L { st with spins := q, spinsSet := set } { s with spins := some q } where
  valid :=
    { slices_pos := h.valid.slices_pos
      shaped := h.valid.shaped
      fits := fun _ model' hmodel' => Option.some.inj ((h.model hmodel).symm.trans hmodel') ▸ hq
      spins_set := fun _ => ⟨hchosen, by simp [h.model hmodel]⟩
      prepared := fun hp => ⟨(h.valid.prepared hp).1, (h.valid.prepared hp).2.1, hchosen, hset⟩ }
  shows := { h.shows with spins := by rw [if_pos hset] }

/-- A count that is chosen anew, with room for that many slices. -/
theorem Stores.setSlices (h : Stores L st s) {model : F.Model}
    (hmodel : s.model = some model) {count : ℕ} (hpos : 0 < count) {q : F.Spins}
    (hq : L.Fits model count q) :
    Stores L
      { st with
        slices := count, slicesChosen := true, spinsSet := false, prepared := false, spins := q }
      { s with trotters := some count, spins := none, prepared := false } where
  valid :=
    { slices_pos := fun _ => hpos
      shaped := h.valid.shaped
      fits := fun _ model' hmodel' => Option.some.inj ((h.model hmodel).symm.trans hmodel') ▸ hq
      spins_set := by simp
      prepared := by simp }
  shows := { h.shows with trotters := rfl, spins := rfl, prepared := rfl }

/-- A session is prepared once nothing is missing. -/
theorem Stores.setPrepared (h : Stores L st s) (hrng : s.rng.isSome)
    (hspins : s.spins.isSome) :
    Stores L { st with prepared := true } { s with prepared := true } where
  valid := by
    have hset : st.spinsSet = true := h.spinsSet.trans hspins
    obtain ⟨hchosen, hmodel⟩ := h.valid.spins_set hset
    exact { h.valid with
      prepared := fun _ => ⟨hmodel, h.shows.rng ▸ hrng, hchosen, hset⟩ }
  shows := { h.shows with prepared := rfl }

/-- A problem that is loaded, with room for its slices if their number has been chosen. -/
theorem Stores.setModel (h : Stores L st s) (d : Direction) {model : F.Model}
    (hshaped : L.Shaped model) {q : F.Spins}
    (hq : st.slicesChosen = true → L.Fits model st.slices q) :
    Stores L
      { st with
        direction := d, model := some model, spinsSet := false, prepared := false, spins := q }
      { s with direction := d, model := some model, spins := none, prepared := false } where
  valid :=
    { slices_pos := h.valid.slices_pos
      shaped := fun _ hmodel => Option.some.inj hmodel ▸ hshaped
      fits := fun hchosen _ hmodel => Option.some.inj hmodel ▸ hq hchosen
      spins_set := by simp
      prepared := by simp }
  shows := { h.shows with direction := rfl, model := rfl, spins := rfl, prepared := rfl }

/-- Nothing is missing from a session that is prepared. -/
theorem Stores.isReady (h : Stores L st s) (hprepared : st.prepared = true) :
    ∃ model, s.IsReady model := by
  obtain ⟨hmodel, hrng, -, hset⟩ := h.valid.prepared hprepared
  obtain ⟨model, hmodel⟩ := Option.isSome_iff_exists.mp hmodel
  exact ⟨model, h.shows.prepared.trans hprepared, h.shows.model.trans hmodel,
    h.shows.rng ▸ hrng, h.spinsSet ▸ hset⟩

end Stores

/-- An action ends without a refusal in what `P` says, unless there is no room; that is so only if
`full`. -/
def Ends (full : Prop) (r : EStateM.Result Stop (Memory F α) β)
    (P : β → Memory F α → Prop) : Prop :=
  match r with
  | .ok v st => P v st
  | .error (.refused _) _ => False
  | .error (.fault f) _ => f = .capacity ∧ full

section Ends
variable {st t : Memory F α} {x : Action F α β} {f : β → Action F α γ} {full : Prop}
  {P Q : β → Memory F α → Prop} {R : γ → Memory F α → Prop} {v : β}

theorem Ends.exists {r : EStateM.Result Stop (Memory F α) β} (h : Ends full r P) :
    (full ∧ ∃ st, r = .error (.fault .capacity) st) ∨ ∃ v st, r = .ok v st ∧ P v st := by
  cases r with
  | ok v st => exact Or.inr ⟨v, st, rfl, h⟩
  | error stop st => cases stop with
    | refused e => exact False.elim h
    | fault f =>
      obtain ⟨rfl, hfull⟩ := h
      exact Or.inl ⟨hfull, st, rfl⟩

theorem Ends.imp {r : EStateM.Result Stop (Memory F α) β} (h : Ends full r P) {full' : Prop}
    (hfull : full → full') (hPQ : ∀ v st, P v st → Q v st) : Ends full' r Q := by
  rcases h.exists with ⟨hfull', st, rfl⟩ | ⟨v, st, rfl, hP⟩
  · exact ⟨rfl, hfull hfull'⟩
  · exact hPQ v st hP

/-- A step whose result is known. -/
theorem bind_eq (hx : x st = .ok v t) : (x >>= f) st = f v t := by
  show EStateM.bind x f st = _
  rw [EStateM.bind, hx]

theorem bind_eq_error {e : Stop} (hx : x st = .error e t) : (x >>= f) st = .error e t := by
  show EStateM.bind x f st = _
  rw [EStateM.bind, hx]

theorem get_bind (f : Memory F α → Action F α γ) : (get >>= f) st = f st st := rfl

theorem Ends.step (hx : x st = .ok v t) (hf : Ends full (f v t) R) :
    Ends full ((x >>= f) st) R := by
  rw [bind_eq hx]
  exact hf

theorem Ends.get_bind {f : Memory F α → Action F α γ} (hf : Ends full (f st st) R) :
    Ends full ((get >>= f) st) R := hf

theorem Ends.bind (hx : Ends full (x st) P) (hf : ∀ v t, P v t → Ends full (f v t) R) :
    Ends full ((x >>= f) st) R := by
  rcases hx.exists with ⟨hfull, t, ht⟩ | ⟨v, t, ht, h⟩
  · rw [bind_eq_error ht]
    exact ⟨rfl, hfull⟩
  · exact Ends.step ht (hf v t h)

end Ends

section Refusals
variable {L : Layout F} {st : Memory F α} {s : Session F α}

theorem loaded_eq {model : F.Model} (hmodel : st.model = some model) :
    loaded st = .ok model st := by
  refine (get_bind _).trans ?_
  rw [hmodel]
  rfl

theorem loaded_eq_error (hmodel : st.model = none) :
    loaded st = .error (.refused .problemNotSet) st := by
  refine (get_bind _).trans ?_
  rw [hmodel]
  rfl

/-- What needs the problem first is refused for want of it, or else with what follows. -/
theorem refused_of_loaded (h : Stores L st s) {k : F.Model → Action F α β} {e : SolverError}
    {f : Session F α → Except SolverError (Session F α)} (he : f s = .error e)
    (hnone : s.model = none → f s = .error .problemNotSet)
    (hsome : ∀ model, s.model = some model → k model st = .error (.refused e) st) :
    (loaded >>= k) st = .error (.refused e) st := by
  cases hmodel : s.model with
  | none =>
    obtain rfl := Except.error.inj (he.symm.trans (hnone hmodel))
    exact bind_eq_error (loaded_eq_error (h.shows.model.symm.trans hmodel))
  | some model => exact (bind_eq (loaded_eq (h.model hmodel))).trans (hsome model hmodel)

/-- A session that is prepared refuses nothing that only needs it to be. -/
theorem refused_of_unprepared (h : Stores L st s) {x : Action F α β} {e unprepared : SolverError}
    {f : Session F α → Except SolverError (Session F α)} (he : f s = .error e)
    (hready : ∀ model, s.IsReady model → ∃ s', f s = .ok s')
    (hf : s.prepared = false → f s = .error unprepared)
    (hx : st.prepared = false → x st = .error (.refused unprepared) st) :
    x st = .error (.refused e) st := by
  cases hprepared : st.prepared with
  | false =>
    obtain rfl := Except.error.inj (he.symm.trans (hf (h.shows.prepared.trans hprepared)))
    exact hx hprepared
  | true =>
    obtain ⟨model, hmodel⟩ := h.isReady hprepared
    obtain ⟨s', hs'⟩ := hready model hmodel
    exact nomatch hs'.symm.trans he

/-- An action does to storage what a request does to the session that is stored. -/
structure Performs (L : Layout F) (x : Action F α Unit)
    (f : Session F α → Except SolverError (Session F α)) : Prop where
  refused : ∀ st s e, Stores L st s → f s = .error e → x st = .error (.refused e) st
  ends : ∀ st s s', Stores L st s → f s = .ok s' →
    Ends (¬ s'.HasRoom L) (x st) fun _ st' => Stores L st' s'

end Refusals

end Memory

variable [Annealable F α]

/-- Drawing spins leaves a number of slices that has been chosen as it is. -/
theorem Session.keepsSize_drawSpins (s : Session F α) (model : F.Model) :
    s.KeepsSize (s.drawSpins model) where
  model := Session.model_drawSpins s model
  trotters m hm := (Session.trotters_ensureTrotters s model).trans (by rw [hm, Option.getD_some])

variable [Storable F α]

/-- The loops over storage compute what they stand for, over room of the right shape. -/
structure Faithful (L : Layout F) : Prop where
  model : ∀ p : F.Problem, Storable.model p = .ok (Annealable.model p)
  shaped : ∀ (p : F.Problem) model d, Annealable.model p = .ok model →
    L.Shaped (Annealable.signed model d)
  allocate : ∀ model m, (∃ q, Storable.allocate model m = .ok q ∧ L.Fits model m q) ∨
    Storable.allocate model m = .error .capacity ∧ ¬ L.Room model m
  start : ∀ model m x q, L.Fits model m q → Annealable.checkStart model x = .ok () →
    Storable.start m x q = .ok (Annealable.start m x)
  random : ∀ model m q g, L.Fits model m q → Storable.random q g = .ok (Annealable.random model m g)
  step : ∀ model m g kt q rng, L.Shaped model → 0 < m → L.Fits model m q →
    Storable.step model g kt q rng = .ok (Annealable.step model m g kt q rng)
  read : ∀ model m d q k, L.Shaped model → L.Fits model m q → k < m →
    Storable.read model d q k = .ok (Annealable.read model d q k)
  steady : Steady (fun _ => True) L.Fits

namespace Memory
variable {L : Layout F} {st : Memory F α} {s : Session F α}

omit [Storable F α] in
/-- Once the number of slices is settled, there is room for the spins of all of them. -/
theorem fits_of_ensureTrotters {model : F.Model} (hmodel : s.model = some model)
    (h : Stores L st (s.ensureTrotters model)) :
    st.slicesChosen = true ∧ L.Fits model st.slices st.spins ∧
      (s.ensureTrotters model).slices = st.slices := by
  obtain ⟨hchosen, -⟩ := h.chosen (Session.trotters_ensureTrotters s model)
  have hmodel' := h.model ((Session.model_ensureTrotters s model).trans hmodel)
  exact ⟨hchosen, h.valid.fits hchosen model hmodel', h.slices hchosen⟩

section Actions
variable (hF : Faithful L)
include hF

theorem allocate_ends (model : F.Model) :
    Ends (¬ L.Room model st.slices) (allocate model st) fun _ st' =>
      ∃ q, L.Fits model st.slices q ∧ st' = { st with spins := q } := by
  refine Ends.get_bind ?_
  rcases hF.allocate model st.slices with ⟨q, hq, hfit⟩ | ⟨hfault, hfull⟩
  · rw [hq]
    exact ⟨q, hfit, rfl⟩
  · rw [hfault]
    exact ⟨rfl, hfull⟩

theorem setTrotters_ends (h : Stores L st s) {model : F.Model}
    (hmodel : s.model = some model) {count : ℕ} (hpos : 0 < count) :
    let s' := { s with trotters := some count, spins := none, prepared := false }
    Ends (¬ s'.HasRoom L) (setTrotters count st) fun _ st' => Stores L st' s' := by
  intro s'
  have hrun : setTrotters count st = allocate model { st with
      slices := count, slicesChosen := true, spinsSet := false, prepared := false } := by
    rw [setTrotters, if_neg hpos.ne']
    exact bind_eq (loaded_eq (h.model hmodel))
  rw [hrun]
  refine (allocate_ends hF model).imp (fun hfull hroom => hfull (hroom model count hmodel rfl)) ?_
  rintro _ _ ⟨q, hq, rfl⟩
  exact h.setSlices hmodel hpos hq

theorem setTrotters_performs (count : ℕ) :
    Performs L (setTrotters count) (Session.setTrotters count) where
  refused st s e h he := by
    rcases Nat.eq_zero_or_pos count with rfl | hpos
    · obtain rfl := Except.error.inj he
      rfl
    · rw [setTrotters, if_neg hpos.ne']
      refine refused_of_loaded h he
        (fun hmodel => by rw [Session.setTrotters, if_neg hpos.ne', hmodel])
        fun model hmodel => ?_
      rw [Session.setTrotters, if_neg hpos.ne', hmodel] at he
      exact nomatch he
  ends st s s' h hs := by
    obtain ⟨hpos, hmodel, rfl⟩ := Session.setTrotters_eq_ok_iff.mp hs
    obtain ⟨model, hmodel⟩ := Option.isSome_iff_exists.mp hmodel
    exact setTrotters_ends hF h hmodel hpos

theorem ensureTrotters_ends (h : Stores L st s) {model : F.Model}
    (hmodel : s.model = some model) :
    Ends (¬ (s.ensureTrotters model).HasRoom L) (ensureTrotters st) fun _ st' =>
      Stores L st' (s.ensureTrotters model) := by
  have htrotters := h.shows.trotters
  refine Ends.get_bind ?_
  cases hchosen : st.slicesChosen with
  | true =>
    rw [hchosen, if_pos rfl] at htrotters
    rw [Session.ensureTrotters, htrotters]
    exact h
  | false =>
    rw [hchosen] at htrotters
    rw [Session.ensureTrotters, htrotters]
    refine Ends.step (loaded_eq (h.model hmodel)) ?_
    exact setTrotters_ends hF h hmodel (lt_max_of_lt_right one_pos)

theorem setX_performs (x : F.Solution) : Performs L (setX x) (Session.setX x) where
  refused st s e h he := by
    refine refused_of_loaded h he (fun hmodel => by rw [Session.setX, hmodel])
      fun model hmodel => ?_
    rw [Session.setX, hmodel] at he
    have hcheck : Annealable.checkStart model x = .error e := by
      cases hcheck : Annealable.checkStart model x with
      | ok u => simp [hcheck, bind, Except.bind, pure, Except.pure] at he
      | error e' => simpa [hcheck, bind, Except.bind] using he
    refine bind_eq_error ?_
    rw [hcheck]
    rfl
  ends st s s' h hs := by
    obtain ⟨model, hmodel, hcheck, rfl⟩ := Session.setX_eq_ok_iff.mp hs
    refine Ends.step (loaded_eq (h.model hmodel))
      (Ends.step (t := st) (v := ()) (by rw [hcheck]; rfl) ?_)
    refine Ends.bind (ensureTrotters_ends hF h hmodel) fun _ st' h' => ?_
    obtain ⟨hchosen, hfit, hslices⟩ := fits_of_ensureTrotters hmodel h'
    refine Ends.get_bind ?_
    rw [hF.start model _ x _ hfit hcheck, hslices]
    exact h'.setSpins ((Session.model_ensureTrotters s model).trans hmodel) hchosen
      (hF.steady.start _ _ _ hcheck trivial) rfl

theorem randomize_ends (h : Stores L st s) {model : F.Model}
    (hmodel : s.model = some model) :
    Ends (¬ (s.drawSpins model).HasRoom L) (randomize st) fun _ st' =>
      Stores L st' (s.drawSpins model) := by
  refine Ends.step (loaded_eq (h.model hmodel)) ?_
  refine Ends.bind (ensureTrotters_ends hF h hmodel) fun _ st' h' => ?_
  obtain ⟨hchosen, hfit, hslices⟩ := fits_of_ensureTrotters hmodel h'
  refine Ends.get_bind ?_
  rw [hF.random model _ _ _ hfit, Session.drawSpins_eq, h'.generator, hslices]
  exact (h'.setRng _).setSpins ((Session.model_ensureTrotters s model).trans hmodel) hchosen
    (hF.steady.random _ _ _) rfl

theorem randomize_performs : Performs L (randomize (F := F)) Session.randomize where
  refused st s e h he := by
    refine refused_of_loaded h he (fun hmodel => by rw [Session.randomize, hmodel])
      fun model hmodel => ?_
    rw [Session.randomize, hmodel] at he
    exact nomatch he
  ends st s s' h hs := by
    obtain ⟨model, hmodel, rfl⟩ := Session.randomize_eq_ok_iff.mp hs
    exact randomize_ends hF h hmodel

theorem ensureSpins_ends (h : Stores L st s) {model : F.Model}
    (hmodel : s.model = some model) :
    let s' := if s.spins.isSome then s else s.drawSpins model
    Ends (¬ s'.HasRoom L) (ensureSpins st) fun _ st' => Stores L st' s' := by
  refine Ends.get_bind ?_
  rw [h.spinsSet]
  cases hspins : s.spins.isSome with
  | true => exact h
  | false => exact randomize_ends hF h hmodel

theorem initAnneal_performs : Performs L (initAnneal (F := F)) Session.initAnneal where
  refused st s e h he := by
    refine refused_of_loaded h he (fun hmodel => by rw [Session.initAnneal, hmodel])
      fun model hmodel => ?_
    rw [Session.initAnneal, hmodel] at he
    exact nomatch he
  ends st s s' h hs := by
    obtain ⟨model, t, hmodel, ht, rfl⟩ := Session.initAnneal_eq_ok_iff.mp hs
    have hmodelt : t.model = some model := by rw [ht, Session.model_ensureTrotters, hmodel]
    have hrngt : t.rng = some s.generator := by rw [ht, Session.rng_ensureTrotters]
    have hseeded := h.setRng (st.rng.getD st.entropy)
    rw [← h.generator] at hseeded
    refine Ends.step (loaded_eq (h.model hmodel)) ?_
    refine Ends.step (v := ()) (t := { st with rng := some s.generator })
      (by rw [h.generator]; rfl) ?_
    have hsettled := ensureTrotters_ends hF hseeded hmodel
    rw [← ht] at hsettled
    refine Ends.bind (hsettled.imp (fun hfull hroom => hfull ?_) fun _ _ h => h) fun _ st₁ h₁ => ?_
    · split_ifs at hroom with hspins
      · exact hroom
      · have hkeeps := Session.keepsSize_drawSpins t model
        exact hroom.of_keepsSize ⟨hkeeps.model, hkeeps.trotters⟩
    refine Ends.bind (ensureSpins_ends hF h₁ hmodelt) fun _ st₂ h₂ => ?_
    refine h₂.setPrepared ?_ ?_
    · split_ifs
      · rw [hrngt]
        rfl
      · rfl
    · split_ifs with hspins
      · exact hspins
      · rfl

theorem annealOneStep_ok (h : Stores L st s) {g kt : α} {s' : Session F α}
    (hs : s.annealOneStep g kt = .ok s') :
    ∃ st', annealOneStep g kt st = .ok () st' ∧ Stores L st' s' := by
  obtain ⟨model, rng, q, hprepared, hmodel, hrng, hq, rfl⟩ := Session.annealOneStep_eq_ok_iff.mp hs
  rw [h.shows.prepared] at hprepared
  rw [h.shows.rng] at hrng
  obtain ⟨-, -, hchosen, hset⟩ := h.valid.prepared hprepared
  obtain rfl := h.spins hset hq
  have hfit := h.valid.fits hchosen model (h.model hmodel)
  have hstep := hF.step model st.slices g kt st.spins rng (h.valid.shaped model (h.model hmodel))
    (h.valid.slices_pos hchosen) hfit
  rw [h.slices hchosen]
  refine ⟨_, ?_, (h.setRng _).setSpins hmodel hchosen (hF.steady.step _ _ _ _ _ _ hfit) hset⟩
  refine (get_bind _).trans ?_
  simp only [hprepared, Bool.not_true, Bool.false_eq_true, if_false]
  refine (bind_eq (loaded_eq (h.model hmodel))).trans ?_
  simp only [hrng, hstep]
  rfl

theorem annealOneStep_performs (g kt : α) :
    Performs L (annealOneStep g kt) (Session.annealOneStep g kt) where
  refused st s e h he := by
    refine refused_of_unprepared h he
      (fun _ hready => (hready.annealOneStep g kt).imp fun _ hs => hs.1)
      (fun hprepared => by rw [Session.annealOneStep, hprepared]; rfl) fun hprepared => ?_
    refine (get_bind _).trans ?_
    simp only [hprepared, Bool.not_false, if_true]
    rfl
  ends st s s' h hs := by
    obtain ⟨st', hst', h'⟩ := annealOneStep_ok hF h hs
    rw [hst']
    exact h'

theorem finAnneal_ok (h : Stores L st s) {s' : Session F α}
    (hs : s.finAnneal = .ok s') :
    ∃ st', finAnneal st = .ok () st' ∧ Stores L st' s' := by
  obtain ⟨model, q, hprepared, hmodel, hq, rfl⟩ := Session.finAnneal_eq_ok_iff.mp hs
  rw [h.shows.prepared] at hprepared
  obtain ⟨-, -, hchosen, hset⟩ := h.valid.prepared hprepared
  obtain rfl := h.spins hset hq
  let readings := (List.range st.slices).map (Annealable.read model s.direction st.spins)
  have hread : (List.range st.slices).mapM (Storable.read model st.direction st.spins) =
      .ok readings := by
    rw [← h.shows.direction]
    exact Result.mapM_eq_ok fun k hk => hF.read model st.slices s.direction st.spins k
      (h.valid.shaped model (h.model hmodel)) (h.valid.fits hchosen model (h.model hmodel))
      (List.mem_range.mp hk)
  rw [h.slices hchosen]
  refine ⟨{ st with
    energies := readings.map Reading.energy
    solutions := readings.map Reading.solution
    signs := readings.map Reading.signs }, ?_, { h.valid with },
    { h.shows with energies := rfl, solutions := rfl, signs := rfl }⟩
  refine (get_bind _).trans ?_
  simp only [hprepared, Bool.not_true, Bool.false_eq_true, if_false]
  refine (bind_eq (loaded_eq (h.model hmodel))).trans ?_
  rw [hread, ← hprepared]
  rfl

theorem finAnneal_performs : Performs L (finAnneal (F := F)) Session.finAnneal where
  refused st s e h he := by
    refine refused_of_unprepared h he (fun _ hready => hready.finAnneal)
      (fun hprepared => by rw [Session.finAnneal, hprepared]; rfl) fun hprepared => ?_
    refine (get_bind _).trans ?_
    simp only [hprepared, Bool.not_false, if_true]
    rfl
  ends st s s' h hs := by
    obtain ⟨st', hst', h'⟩ := finAnneal_ok hF h hs
    rw [hst']
    exact h'

theorem setProblem_performs (p : F.Problem) (d : Direction) :
    Performs L (setProblem p d) (Session.setProblem p d) where
  refused st s e h he := by
    have hfail : Annealable.model p = .error e := by
      cases hmodel : Annealable.model p with
      | error e' => simpa [Session.setProblem, hmodel, bind, Except.bind] using he
      | ok model => simp [Session.setProblem, hmodel, bind, Except.bind, pure, Except.pure] at he
    refine (bind_eq (v := Annealable.model p) (t := st) ?_).trans (bind_eq_error ?_)
    · rw [hF.model p]
      rfl
    · rw [hfail]
      rfl
  ends st s s' h hs := by
    obtain ⟨model, hmodel, rfl⟩ := Session.setProblem_eq_ok_iff.mp hs
    refine Ends.step (v := .ok model) (t := st) (by rw [hF.model p, hmodel]; rfl) ?_
    refine Ends.step (v := model) (t := st) rfl ?_
    have hshaped := hF.shaped p model d hmodel
    let st₁ : Memory F α := { st with
      direction := d, model := some (Annealable.signed model d), spinsSet := false
      prepared := false }
    refine Ends.step (v := ()) (t := st₁) rfl (Ends.get_bind ?_)
    split_ifs with hchosen
    · refine (allocate_ends hF (Annealable.signed model d)).imp (fun hfull hroom => hfull ?_) ?_
      · exact hroom _ _ rfl (h.shows.trotters.trans (if_pos hchosen))
      rintro _ _ ⟨q, hq, rfl⟩
      exact h.setModel d hshaped fun _ => hq
    · exact h.setModel d hshaped fun h => absurd h hchosen

end Actions

end Memory

end Qubo.Anneal

import Mathlib.Tactic
import Qubo.Proofs.Anneal.Store.Run

/-! Complete runs of an annealer start from scratch. What a run gives, and all that it leaves, comes
from the problem in force, the generator and the number of slices: the spins, the readings and the
stage that earlier requests have left play no part. -/
namespace Qubo.Anneal
open Checked (Fault)
variable {F : Family} {α : Type}

namespace Session
section
variable [Annealable F α] {s : Session F α} {model : F.Model}

/-- The session at the first step of a run: random spins in `m` slices. -/
def opened (model : F.Model) (m : ℕ) (s : Session F α) : Session F α :=
  { s with
    rng := some (Annealable.random model m s.generator).2
    trotters := some m
    spins := some (Annealable.random model m s.generator).1
    prepared := true }

/-- The number of slices of a run: the one that is asked for, the one chosen before, or the
default. -/
def runTrotters (requested : Option ℕ) (model : F.Model) (s : Session F α) : ℕ :=
  requested.getD (s.trotters.getD (defaultTrotters (Annealable.extent model).variableCount))

theorem initAnneal_drawSpins (hmodel : s.model = some model) :
    (s.drawSpins model).initAnneal = .ok { s.drawSpins model with prepared := true } := by
  have hdrawn : (s.drawSpins model).model = some model := (model_drawSpins s model).trans hmodel
  apply initAnneal_eq_ok_iff.mpr
  refine ⟨model, _, hdrawn, rfl, ?_⟩
  have htrotters := trotters_ensureTrotters s model
  have hsettled : ({ s.drawSpins model with rng := some (s.drawSpins model).generator } :
      Session F α).ensureTrotters model = s.drawSpins model := by
    unfold ensureTrotters
    rw [drawSpins_eq]
    simp only [htrotters]
    rfl
  rw [hsettled]
  rfl

theorem drawSpins_prepared (hm : s.trotters.getD
    (defaultTrotters (Annealable.extent model).variableCount) = m) :
    ({ s.drawSpins model with prepared := true } : Session F α) = s.opened model m := by
  subst hm
  obtain ⟨rng, entropy, direction, given, trotters, spins, prepared, readings⟩ := s
  cases trotters <;> rfl

/-- The stages of a run before its first step leave nothing of the spins that were there. -/
theorem opening_eq (hmodel : s.model = some model) {requested : Option ℕ}
    (hpos : requested ≠ some 0) :
    (s.adoptTrotters requested >>= fun s => s.randomize >>= fun s => s.initAnneal) =
      .ok (s.opened model (s.runTrotters requested model)) := by
  cases requested with
  | none =>
    have hdraw := randomize_eq_ok_iff.mpr ⟨model, hmodel, rfl⟩
    show (s.randomize >>= fun s => s.initAnneal) = _
    rw [hdraw]
    exact (initAnneal_drawSpins hmodel).trans (congrArg Except.ok (drawSpins_prepared rfl))
  | some count =>
    have hcount : 0 < count := Nat.pos_of_ne_zero fun h => hpos (congrArg some h)
    have hchosen := (setTrotters_eq_ok_iff (s := s)).mpr ⟨hcount, by simp [hmodel], rfl⟩
    let t : Session F α := { s with trotters := some count, spins := none, prepared := false }
    have hdraw : t.randomize = .ok (t.drawSpins model) :=
      randomize_eq_ok_iff.mpr ⟨model, hmodel, rfl⟩
    show (s.setTrotters count >>= fun s => s.randomize >>= fun s => s.initAnneal) = _
    rw [hchosen]
    show (t.randomize >>= fun s => s.initAnneal) = _
    rw [hdraw]
    exact (initAnneal_drawSpins (s := t) hmodel).trans
      (congrArg Except.ok (drawSpins_prepared (s := t) rfl))

end

/-- The session with another generator to fall back on and other readings behind it. -/
def leaving (entropy : Random.Generator) (readings : List (Reading F α)) (s : Session F α) :
    Session F α :=
  { s with entropy := entropy, readings := readings }

variable [Annealable F α] (entropy : Random.Generator) (readings : List (Reading F α))
  (s : Session F α)

theorem annealOneStep_leaving (g kt : α) : (s.leaving entropy readings).annealOneStep g kt =
    (s.annealOneStep g kt).map (leaving entropy readings) := by
  unfold annealOneStep leaving
  cases s.prepared <;> cases s.model <;> cases s.rng <;> cases s.spins <;> rfl

/-- Reading the slices out replaces whatever readings there were. -/
theorem finAnneal_leaving : (s.leaving entropy readings).finAnneal =
    s.finAnneal.map fun t => { t with entropy := entropy } := by
  unfold finAnneal leaving
  cases s.prepared <;> cases s.model <;> cases s.spins <;> rfl

variable [Scalar α] {s s' : Session F α}

/-- Two sessions with one problem, one generator and one number of slices for the run end it
alike. -/
theorem anneal_eq_map {model : F.Model} {schedule : Schedule α}
    (hv : schedule.validate = .ok ()) (hmodel : s.model = some model)
    (hmodel' : s'.model = some model) (hdirection : s'.direction = s.direction)
    (hgenerator : s'.generator = s.generator)
    (htrotters : schedule.trotters.isSome ∨ s'.trotters = s.trotters) :
    s'.anneal schedule = (s.anneal schedule).map fun t => { t with entropy := s'.entropy } := by
  have hpos := (Schedule.validate_eq_ok_iff.mp hv).2.2.2.2
  have hopened : s'.opened model (s'.runTrotters schedule.trotters model) =
      (s.opened model (s.runTrotters schedule.trotters model)).leaving s'.entropy s'.readings := by
    have hm : s'.runTrotters schedule.trotters model =
        s.runTrotters schedule.trotters model := by
      unfold runTrotters
      rcases htrotters with hasked | hsame
      · obtain ⟨count, hcount⟩ := Option.isSome_iff_exists.mp hasked
        rw [hcount]
        rfl
      · rw [hsame]
    unfold opened leaving
    simp only [hm, hgenerator, hdirection, hmodel, hmodel']
  have hopen := opening_eq hmodel hpos
  have hopen' := opening_eq hmodel' hpos
  rw [hopened] at hopen'
  have hassoc (t : Session F α) : t.anneal schedule = (t.adoptTrotters schedule.trotters >>=
      fun t => t.randomize >>= fun t => t.initAnneal) >>= fun t =>
        schedule.fields.foldlM (fun t g => t.annealOneStep g schedule.kt) t >>= finAnneal := by
    rw [anneal_eq, hv, bind_assoc]
    simp only [bind_assoc]
    rfl
  rw [hassoc, hassoc, hopen, hopen']
  refine Result.bind_eq_map (g := leaving s'.entropy s'.readings) rfl fun t _ => ?_
  refine Result.bind_eq_map (g := leaving s'.entropy s'.readings) ?_ fun t _ =>
    finAnneal_leaving s'.entropy s'.readings t
  exact Result.foldlM_eq_map (fun t g => annealOneStep_leaving _ _ t g schedule.kt) _ t

/-- Complete runs of two sessions give and leave the same. Only the generators may differ that the
sessions would have fallen back on. -/
structure SolvesAlike (schedule : Schedule α) (s s' : Session F α) : Prop where
  outcome : ∃ outcome, (s.solve schedule).result = .ok outcome ∧
    (s'.solve schedule).result = .ok outcome
  events : (s'.solve schedule).events = (s.solve schedule).events
  solver : (s'.solve schedule).solver = { (s.solve schedule).solver with entropy := s'.entropy }

theorem solve_of_anneal {schedule : Schedule α} {t : Session F α}
    (ht : s.anneal schedule = .ok t) : s.solve schedule =
      ⟨t, Outcome.collect t.direction t.candidates schedule.stepCount, [t.event]⟩ := by
  rw [solve, ht]

theorem solvesAlike_of_anneal {schedule : Schedule α} {t : Session F α} {outcome : Outcome α}
    (ht : s.anneal schedule = .ok t)
    (ht' : s'.anneal schedule = .ok { t with entropy := s'.entropy })
    (houtcome : (s.solve schedule).result = .ok outcome) : SolvesAlike schedule s s' := by
  rw [solve_of_anneal ht] at houtcome
  constructor
  · refine ⟨outcome, ?_, ?_⟩
    · rw [solve_of_anneal ht]
      exact houtcome
    · rw [solve_of_anneal ht']
      exact houtcome
  · rw [solve_of_anneal ht, solve_of_anneal ht']
    rfl
  · rw [solve_of_anneal ht, solve_of_anneal ht']

/-- What earlier requests have left is the problem in force, the generator and the number of slices,
if that is chosen. -/
theorem solvesAlike_of_loaded (entropy entropy' : Random.Generator)
    {requests requests' : List (Request F α)} {p : F.Problem} {d : Direction}
    (hl : loaded requests = some (p, d)) (hl' : loaded requests' = some (p, d)) (value : UInt64)
    {schedule : Schedule α} (hv : schedule.validate = .ok ())
    (htrotters : schedule.trotters.isSome ∨
      ((new entropy').run requests').trotters = ((new entropy).run requests).trotters) :
    SolvesAlike schedule ((new entropy).run (requests ++ [.seed value]))
      ((new entropy').run (requests' ++ [.seed value])) := by
  have hfollows (entropy : Random.Generator) {requests : List (Request F α)}
      (hl : loaded requests = some (p, d)) :
      Follows (some (p, d)) ((new entropy : Session F α).run requests) :=
    hl ▸ (run_new steady_true entropy requests fun _ _ => trivial).2
  obtain ⟨given, hgiven, hmodel, hdirection⟩ := hfollows entropy hl
  obtain ⟨given', hgiven', hmodel', hdirection'⟩ := hfollows entropy' hl'
  obtain rfl : given = given' := Except.ok.inj (hgiven.symm.trans hgiven')
  have hseeded : loaded (requests ++ [.seed value]) = some (p, d) := by
    rw [loaded, List.foldl_append]
    exact hl
  obtain ⟨outcome, houtcome, -⟩ := exists_solve_of_loaded entropy hseeded hv
  rw [run_append, run_append] at *
  obtain ⟨t, ht⟩ := exists_anneal_eq_ok (s := (((new entropy).run requests).step (.seed value)).1)
    hmodel hv
  have ht' : (((new entropy').run requests').step (.seed value)).1.anneal schedule = _ :=
    anneal_eq_map (s := (((new entropy).run requests).step (.seed value)).1) hv hmodel hmodel'
      (hdirection'.trans hdirection.symm) rfl htrotters
  rw [ht] at ht'
  exact solvesAlike_of_anneal ht ht' houtcome

end Session

namespace Memory
variable {L : Layout F} {st st' : Memory F α} {s s' : Session F α}

/-- Storage that shows one and the same session, with slices and spins in it, is the same. -/
theorem Shows.eq_of_eq (h : st.Shows s) (h' : st'.Shows s')
    (hs : s' = { s with entropy := s'.entropy }) (htrotters : s.trotters.isSome)
    (hspins : s.spins.isSome) : st' = { st with entropy := st'.entropy } := by
  have hsame : s'.rng = s.rng ∧ s'.direction = s.direction ∧ s'.model = s.model ∧
      s'.trotters = s.trotters ∧ s'.spins = s.spins ∧ s'.prepared = s.prepared ∧
      s'.readings = s.readings := by
    rw [hs]
    simp
  obtain ⟨hrng, hdirection, hmodel, hchosen, hset, hprepared, hreadings⟩ := hsame
  have hstored (s : Session F α) (st : Memory F α) (h : st.Shows s)
      (htrotters : s.trotters.isSome) (hspins : s.spins.isSome) :
      st.slicesChosen = true ∧ st.spinsSet = true ∧ s.trotters = some st.slices ∧
        s.spins = some st.spins := by
    have hm := h.trotters
    have hq := h.spins
    split_ifs at hm with hchosen
    · split_ifs at hq with hset
      · exact ⟨hchosen, hset, hm, hq⟩
      · simp [hq] at hspins
    · simp [hm] at htrotters
  obtain ⟨hc, hsp, hm, hq⟩ := hstored s st h htrotters hspins
  obtain ⟨hc', hsp', hm', hq'⟩ := hstored s' st' h' (hchosen ▸ htrotters) (hset ▸ hspins)
  have henergies : st'.energies = st.energies := by
    rw [← h.energies, ← h'.energies, Session.energies, Session.energies, hreadings]
  have hsolutions : st'.solutions = st.solutions := by
    rw [← h.solutions, ← h'.solutions, Session.solutions, Session.solutions, hreadings]
  have hsigns : st'.signs = st.signs := by
    rw [← h.signs, ← h'.signs, Session.signs, Session.signs, hreadings]
  have hslices : st'.slices = st.slices := by simpa [hm, hm'] using hchosen
  have hspins : st'.spins = st.spins := by simpa [hq, hq'] using hset
  rw [h.rng, h'.rng] at hrng
  rw [h.direction, h'.direction] at hdirection
  rw [h.model, h'.model] at hmodel
  rw [h.prepared, h'.prepared] at hprepared
  cases st
  cases st'
  simp only [mk.injEq]
  exact ⟨hrng, trivial, hdirection, hmodel, hslices, hc'.trans hc.symm, hspins,
    hsp'.trans hsp.symm, hprepared, henergies, hsolutions, hsigns⟩

variable [Annealable F α] [Storable F α] [Scalar α]

/-- Complete runs of two annealers in storage give and leave the same. Nothing that is stored
differs then, but for the generators that the annealers would have fallen back on. -/
def SolvesAlike (schedule : Schedule α) (st st' : Memory F α) : Prop :=
  ∃ outcome u u', st.answer (.solve schedule) = .ok (u, .ok (some outcome)) ∧
    st'.answer (.solve schedule) = .ok (u', .ok (some outcome)) ∧
    u' = { u with entropy := u'.entropy }

theorem solvesAlike_of_stores (hF : Faithful L) (h : Stores L st s) (h' : Stores L st' s')
    {schedule : Schedule α} (hs : Session.SolvesAlike schedule s s')
    (htrotters : (s.solve schedule).solver.trotters.isSome)
    (hspins : (s.solve schedule).solver.spins.isSome)
    (hroom : (s.solve schedule).solver.HasRoom L) : SolvesAlike schedule st st' := by
  obtain ⟨outcome, houtcome, houtcome'⟩ := hs.outcome
  have hroom' : (s'.solve schedule).solver.HasRoom L := by
    rw [hs.solver]
    exact hroom
  have hanswer {st : Memory F α} {s : Session F α} (h : Stores L st s)
      (houtcome : (s.solve schedule).result = .ok outcome)
      (hroom : (s.solve schedule).solver.HasRoom L) :
      ∃ u, st.answer (.solve schedule) = .ok (u, .ok (some outcome)) ∧
        Stores L u (s.solve schedule).solver := by
    rcases solve_agrees hF h schedule with ⟨-, hfull⟩ | ⟨u, hu, hstores⟩
    · exact absurd hroom hfull
    · refine ⟨u, ?_, hstores⟩
      rw [hu, Session.step, houtcome]
      rfl
  obtain ⟨u, hu, hstores⟩ := hanswer h houtcome hroom
  obtain ⟨u', hu', hstores'⟩ := hanswer h' houtcome' hroom'
  refine ⟨outcome, u, u', hu, hu', hstores.shows.eq_of_eq hstores'.shows ?_ htrotters hspins⟩
  rw [hs.solver]

end Memory

section
variable [Annealable F α] [Storable F α] [Scalar α] {L : Layout F}

/-- Complete runs after two sequences of requests, of the sessions and in storage: they give and
leave the same, as far as there is room for the slices. -/
structure StartsAfresh (L : Layout F) (schedule : Schedule α) (entropy entropy' : Random.Generator)
    (requests requests' : List (Request F α)) : Prop where
  sessions : ((Session.new entropy).run requests).SolvesAlike schedule
    ((Session.new entropy').run requests')
  storage : ∀ st st', (Memory.new entropy).run requests = .ok st →
    (Memory.new entropy').run requests' = .ok st' →
    (((Session.new entropy).run requests).solve schedule).solver.HasRoom L →
    st.SolvesAlike schedule st'

/-- A seeded annealer that takes up a schedule starts from scratch. -/
theorem startsAfresh (hF : Faithful L) (entropy entropy' : Random.Generator)
    {requests requests' : List (Request F α)} {p : F.Problem} {d : Direction}
    (hl : loaded requests = some (p, d)) (hl' : loaded requests' = some (p, d)) (value : UInt64)
    {schedule : Schedule α} (hv : schedule.validate = .ok ())
    (htrotters : schedule.trotters.isSome ∨ ((Session.new entropy').run requests').trotters =
      ((Session.new entropy).run requests).trotters) :
    StartsAfresh L schedule entropy entropy' (requests ++ [.seed value])
      (requests' ++ [.seed value]) := by
  have hsessions := Session.solvesAlike_of_loaded entropy entropy' hl hl' value hv htrotters
  refine ⟨hsessions, fun st st' hst hst' hroom => ?_⟩
  obtain ⟨t, ht⟩ : ∃ t, ((Session.new entropy).run (requests ++ [.seed value])).anneal schedule =
      .ok t := by
    obtain ⟨outcome, houtcome, -⟩ := hsessions.outcome
    unfold Session.solve at houtcome
    split at houtcome
    · exact nomatch houtcome
    · exact ⟨_, ‹_›⟩
  obtain ⟨u, hfin, -⟩ := Session.exists_finAnneal_of_anneal ht
  obtain ⟨model, q, -, -, hq, hread⟩ := Session.finAnneal_eq_ok_iff.mp hfin
  have hsound : Session.Sound (fun _ _ _ => True) t :=
    (Session.stable_sound steady_true).anneal
      (Session.run_new steady_true entropy _ fun _ _ => trivial).1 ht
  have hspins : t.spins = some q := by rw [hread, hq]
  obtain ⟨-, m, -, hm, -⟩ := hsound.spins_fit q hspins
  rw [Session.solve_of_anneal ht] at hroom
  refine Memory.solvesAlike_of_stores hF (Memory.stores_of_run hF entropy hst)
    (Memory.stores_of_run hF entropy' hst') hsessions ?_ ?_ ?_
  · rw [Session.solve_of_anneal ht]
    simp [hm]
  · rw [Session.solve_of_anneal ht]
    simp [hspins]
  · rw [Session.solve_of_anneal ht]
    exact hroom

end

end Qubo.Anneal

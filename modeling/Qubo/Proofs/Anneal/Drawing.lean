import Mathlib.Tactic
import Qubo.Proofs.Anneal.Alike
import Qubo.Proofs.Anneal.Steps

/-! What a run draws: spins at random, and for every trial of a step the flip that it proposes and
the number that decides it. Annealers that are tied to each other draw the same. -/
namespace Qubo.Anneal
variable {F : Family} {α β : Type}

/-- Something that has been drawn. -/
inductive Drawing (σ β : Type) where
  /-- The spins of all slices. -/
  | spins (q : σ)
  /-- What a trial proposes. -/
  | trial (p : β)
  deriving DecidableEq, Repr

section Requests
variable [Scalar α] [Annealable F α] {schedule schedule' : Schedule α}

/-- Complete runs under schedules that are alike stand for requests that are alike. -/
theorem forall₂_requestsOf (h : schedule.Alike schedule') :
    List.Forall₂ Request.Alike (requestsOf (F := F) schedule) (requestsOf schedule') := by
  have htrotters : List.Forall₂ Request.Alike
      (schedule.trotters.toList.map (.setTrotters : ℕ → Request F α))
      (schedule'.trotters.toList.map .setTrotters) := by
    rw [h.trotters]
    cases schedule'.trotters with
    | none => exact .nil
    | some count => exact .cons (.setTrotters count) .nil
  have hopened : List.Forall₂ Request.Alike ([.randomize, .initAnneal] : List (Request F α))
      [.randomize, .initAnneal] := .cons .randomize (.cons .initAnneal .nil)
  have hsteps : List.Forall₂ Request.Alike
      (schedule.fields.map (.annealOneStep · schedule.kt : α → Request F α))
      (schedule'.fields.map (.annealOneStep · schedule'.kt)) := by
    rw [List.forall₂_map_left_iff, List.forall₂_map_right_iff]
    exact List.forall₂_iff_zip.mpr ⟨h.stepCount, fun _ => .annealOneStep ..⟩
  exact List.rel_append (List.rel_append (List.rel_append htrotters hopened) hsteps)
    (.cons .finAnneal .nil)

end Requests

namespace Session
variable [Annealable F α]
  (moves : F.Model → ℕ → α → α → F.Spins → Random.Generator → List (Move F.Spins β α))

/-- The trials of a step at this field and temperature; none of one that would be refused. -/
def trials (g kt : α) (s : Session F α) : List (Move F.Spins β α) :=
  match s.prepared, s.model, s.rng, s.spins with
  | true, some model, some rng, some q => moves model s.slices g kt q rng
  | _, _, _, _ => []

/-- The spins that are there after a request which has drawn them. -/
def spinsDrawn (result : Except SolverError (Session F α)) : List (Drawing F.Spins β) :=
  (result.toOption.bind Session.spins).toList.map .spins

/-- What is drawn for a request, unless it is a complete run. -/
def drawn (s : Session F α) : Request F α → List (Drawing F.Spins β)
  | .randomize => spinsDrawn s.randomize
  | .initAnneal => if s.trotters.isSome ∧ s.spins.isSome then [] else spinsDrawn s.initAnneal
  | .annealOneStep g kt => ((s.trials moves g kt).map Move.proposal).map .trial
  | _ => []

section Drawn
variable {moves} {s s' : Session F α}

/-- The trials of a step lead from the spins that it finds to the spins that it leaves. -/
theorem chain_trials {turn : F.Spins → β → F.Spins}
    (hchain : ∀ model m g kt q rng, Chain turn q (moves model m g kt q rng)
      (Annealable.step model m g kt q rng).1) {g kt : α} (h : s.annealOneStep g kt = .ok s') :
    ∃ q q', s.spins = some q ∧ s'.spins = some q' ∧ Chain turn q (s.trials moves g kt) q' := by
  obtain ⟨model, rng, q, hprepared, hmodel, hrng, hq, rfl⟩ := annealOneStep_eq_ok_iff.mp h
  refine ⟨q, _, hq, rfl, ?_⟩
  unfold trials
  rw [hprepared, hmodel, hrng, hq]
  exact hchain ..

omit [Annealable F α] in
theorem spinsDrawn_ok (s : Session F α) :
    spinsDrawn (.ok s) = (s.spins.toList.map .spins : List (Drawing F.Spins β)) := rfl

theorem isSome_spins_ensureTrotters (s : Session F α) (model : F.Model) :
    (s.ensureTrotters model).spins.isSome ↔ s.trotters.isSome ∧ s.spins.isSome := by
  unfold ensureTrotters
  cases htrotters : s.trotters <;> simp

namespace Alike

theorem spins_drawSpins (hF : Oblivious moves) {model model' : F.Model} (h : Alike True s s')
    (hextent : Annealable.extent model = Annealable.extent model') :
    (s.drawSpins model).spins = (s'.drawSpins model').spins := by
  have ht := h.ensureTrotters hextent
  rw [drawSpins_eq, drawSpins_eq, ht.slices, hF.random hextent, ht.generator trivial]

theorem drawn_randomize (hF : Oblivious moves) (h : Alike True s s') :
    s.drawn moves .randomize = s'.drawn moves .randomize := by
  show spinsDrawn s.randomize = spinsDrawn s'.randomize
  rcases h.models with ⟨hmodel, hmodel'⟩ | ⟨model, model', hmodel, hmodel', hextent⟩
  · rw [Session.randomize, Session.randomize, hmodel, hmodel']
  · rw [randomize_eq_ok_iff.mpr ⟨model, hmodel, rfl⟩,
      randomize_eq_ok_iff.mpr ⟨model', hmodel', rfl⟩, spinsDrawn_ok, spinsDrawn_ok,
      h.spins_drawSpins hF hextent]

theorem drawn_initAnneal (hF : Oblivious moves) (h : Alike True s s') :
    s.drawn moves .initAnneal = s'.drawn moves .initAnneal := by
  show (if s.trotters.isSome ∧ s.spins.isSome then [] else spinsDrawn s.initAnneal) =
    if s'.trotters.isSome ∧ s'.spins.isSome then [] else spinsDrawn s'.initAnneal
  rw [← h.trotters, ← h.spins]
  split_ifs with hset
  · rfl
  rcases h.models with ⟨hmodel, hmodel'⟩ | ⟨model, model', hmodel, hmodel', hextent⟩
  · rw [Session.initAnneal, Session.initAnneal, hmodel, hmodel']
  · -- Slices that are chosen by default have no spins yet, whatever there was before.
    have ht := h.withGenerator.ensureTrotters hextent
    have hunset := mt (isSome_spins_ensureTrotters { s with rng := some s.generator } model).mp hset
    have hunset' := ht.spins ▸ hunset
    rw [initAnneal_eq_ok_iff.mpr ⟨model, _, hmodel, rfl, rfl⟩,
      initAnneal_eq_ok_iff.mpr ⟨model', _, hmodel', rfl, rfl⟩, if_neg hunset, if_neg hunset',
      spinsDrawn_ok, spinsDrawn_ok]
    exact congrArg (fun q => (q.toList.map .spins : List (Drawing F.Spins β)))
      (ht.spins_drawSpins hF hextent)

theorem drawn_annealOneStep (hF : Oblivious moves) (h : Alike True s s') (g g' kt kt' : α) :
    s.drawn moves (.annealOneStep g kt) = s'.drawn moves (.annealOneStep g' kt') := by
  have hproposals : (s.trials moves g kt).map Move.proposal =
      (s'.trials moves g' kt').map Move.proposal := by
    unfold trials
    obtain ⟨rng, hrng, hrng'⟩ := h.rng trivial
    rw [← h.prepared, ← h.slices, hrng, hrng']
    rcases h.models with ⟨hmodel, hmodel'⟩ | ⟨model, model', hmodel, hmodel', hextent⟩
    · rw [hmodel, hmodel']
      cases s.prepared <;> rfl
    rcases none_or_some h.spins with ⟨hq, hq'⟩ | ⟨q, q', hq, hq'⟩
    · rw [hmodel, hmodel', hq, hq']
      cases s.prepared <;> rfl
    · rw [hmodel, hmodel', hq, hq']
      cases s.prepared with
      | false => rfl
      | true => exact hF.proposals hextent _ g g' kt kt' q q' rng
  exact congrArg (List.map Drawing.trial) hproposals

end Alike

end Drawn

variable [Scalar α]

/-- What is drawn for each of several requests, and the generator that it leaves. -/
def drawings (s : Session F α) :
    List (Request F α) → List (List (Drawing F.Spins β) × Option Random.Generator)
  | [] => []
  | r :: requests => (s.drawn moves r, (s.step r).1.rng) :: (s.step r).1.drawings requests

/-- The requests that a request stands for: those of a complete run, if it is not refused. -/
def parts (s : Session F α) : Request F α → List (Request F α)
  | .solve schedule => (s.anneal schedule).toOption.elim [] fun _ => requestsOf schedule
  | r => [r]

/-- The requests that several requests stand for, none of them a complete run. -/
def partsOver (s : Session F α) : List (Request F α) → List (Request F α)
  | [] => []
  | r :: requests => s.parts r ++ (s.step r).1.partsOver requests

variable {moves} {s s' : Session F α} {tied : Prop}

theorem Leads.run_eq {requests : List (Request F α)} {t : Session F α}
    (h : Leads s requests t) : s.run requests = t := by
  induction h with
  | nil => rfl
  | cons h _ ih =>
    rw [run, List.foldl_cons, h]
    exact ih

/-- The parts of a request leave what the request leaves. -/
theorem run_parts (s : Session F α) (r : Request F α) : s.run (s.parts r) = (s.step r).1 := by
  cases r with
  | solve schedule =>
    show s.run ((s.anneal schedule).toOption.elim [] _) = (s.solve schedule).solver
    unfold solve
    cases hannealed : s.anneal schedule with
    | error e => rfl
    | ok t => exact (leads_of_anneal hannealed).run_eq
  | _ => rfl

theorem run_partsOver (s : Session F α) (requests : List (Request F α)) :
    s.run (s.partsOver requests) = s.run requests := by
  induction requests generalizing s with
  | nil => rfl
  | cons r requests ih =>
    calc s.run (s.parts r ++ (s.step r).1.partsOver requests)
        = (s.run (s.parts r)).run ((s.step r).1.partsOver requests) := List.foldl_append
      _ = (s.step r).1.run ((s.step r).1.partsOver requests) := by rw [run_parts]
      _ = (s.step r).1.run requests := ih _

namespace Alike

/-- Tied annealers draw the same for requests that are alike. -/
theorem drawn_eq (hF : Oblivious moves) (h : Alike True s s') {r r' : Request F α}
    (hr : r.Alike r') : s.drawn moves r = s'.drawn moves r' := by
  cases hr with
  | randomize => exact h.drawn_randomize hF
  | initAnneal => exact h.drawn_initAnneal hF
  | annealOneStep g g' kt kt' => exact h.drawn_annealOneStep hF g g' kt kt'
  | _ => rfl

/-- Tied annealers draw the same for every request, and each leaves them the same generator. -/
theorem drawings_eq (hF : Oblivious moves) (h : Alike True s s')
    {requests requests' : List (Request F α)}
    (hr : List.Forall₂ Request.Alike requests requests') :
    s.drawings moves requests = s'.drawings moves requests' := by
  induction hr generalizing s s' with
  | nil => rfl
  | cons hr _ ih =>
    have hnext := h.step hF hr
    obtain ⟨rng, hrng, hrng'⟩ := hnext.rng trivial
    rw [drawings, drawings, h.drawn_eq hF hr, hrng, hrng', ih hnext]

theorem parts (hF : Oblivious moves) (h : Alike tied s s') {r r' : Request F α}
    (hr : r.Alike r') : List.Forall₂ Request.Alike (s.parts r) (s'.parts r') := by
  have hsingle : List.Forall₂ Request.Alike [r] [r'] := .cons hr .nil
  cases hr with
  | solve hschedule =>
    simp only [Session.parts]
    have hannealed := h.anneal hF hschedule
    generalize s.anneal _ = x, s'.anneal _ = x' at hannealed
    cases hannealed with
    | error => exact .nil
    | ok => exact forall₂_requestsOf hschedule
  | _ => exact hsingle

theorem partsOver (hF : Oblivious moves) (h : Alike tied s s')
    {requests requests' : List (Request F α)}
    (hr : List.Forall₂ Request.Alike requests requests') :
    List.Forall₂ Request.Alike (s.partsOver requests) (s'.partsOver requests') := by
  induction hr generalizing s s' with
  | nil => exact .nil
  | cons hr _ ih => exact List.rel_append (h.parts hF hr) (ih (h.step hF hr))

end Alike

end Session

end Qubo.Anneal

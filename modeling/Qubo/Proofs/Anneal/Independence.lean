import Mathlib.Tactic
import Qubo.Proofs.Anneal.Balance.Bipartite
import Qubo.Proofs.Anneal.Balance.Dense
import Qubo.Proofs.Anneal.Drawing
import Qubo.Proofs.Anneal.Store

/-! Randomness is consumed regardless of coefficients, directions, fields and temperatures. Annealers
that are seeded alike draw the same spins, propose the same in every trial, and have the same
generator after every request and in every turn of a loop; what is accepted plays no part. -/
namespace Qubo.Anneal
open Checked (Fault)
variable {α : Type} [Scalar α]

section Turns
variable [Transcendental α] {m n : ℕ} {fieldAt fieldAt' : Matrix α → ℕ → ℕ → Except Fault α}
  {field field' : Matrix α → Proposal α → α}

/-- Loops of trials over spins of one shape, from one generator: after as many turns, both have the
same generator, and their next turns try the same proposal, which they draw from it. -/
def SameTurns (m n : ℕ) (fieldAt fieldAt' : Matrix α → ℕ → ℕ → Except Fault α)
    (field field' : Matrix α → Proposal α → α) : Prop :=
  ∀ (coupling coupling' kt kt' : α) (q q' : Matrix α), q.rows = m → q.cols = n → q'.rows = m →
    q'.cols = n → ∀ (rng : Random.Generator) (k : ℕ), ∃ q₁ q₁' rng₁ p rng₂,
      Checked.repeated (trialAt (Scalar.two / (m : α)) coupling kt fieldAt) k (q, rng) =
        .ok (q₁, rng₁) ∧
      Checked.repeated (trialAt (Scalar.two / (m : α)) coupling' kt' fieldAt') k (q', rng) =
        .ok (q₁', rng₁) ∧
      propose n m rng₁ = (p, rng₂) ∧
      trialAt (Scalar.two / (m : α)) coupling kt fieldAt (q₁, rng₁) =
        .ok (trial coupling kt field q₁ p, rng₂) ∧
      trialAt (Scalar.two / (m : α)) coupling' kt' fieldAt' (q₁', rng₁) =
        .ok (trial coupling' kt' field' q₁' p, rng₂)

/-- A turn draws its proposal where the turns before it have left the generator. -/
theorem turn_eq (hfield : Finds m n fieldAt field) (hm : 0 < m) (hn : 0 < n) (coupling kt : α)
    {q : Matrix α} (hrows : q.rows = m) (hcols : q.cols = n) (rng : Random.Generator) (k : ℕ) :
    let rng₁ := (Random.Draw.many (propose (α := α) n m) k rng).2
    ∃ q₁, Checked.repeated (trialAt (Scalar.two / (m : α)) coupling kt fieldAt) k (q, rng) =
        .ok (q₁, rng₁) ∧
      trialAt (Scalar.two / (m : α)) coupling kt fieldAt (q₁, rng₁) =
        .ok (trial coupling kt field q₁ (propose n m rng₁).1, (propose (α := α) n m rng₁).2) := by
  -- The first turn is taken off, and the rest starts where it has left spins and generator; whether
  -- it has turned its spin around does not matter to the shape.
  induction k generalizing q rng with
  | zero => exact ⟨q, rfl, trialAt_eq hfield hm hn coupling kt hrows hcols rfl⟩
  | succ k ih =>
    have hturn := trialAt_eq hfield hm hn coupling kt hrows hcols (g := rng) rfl
    obtain ⟨q₁, hturns, hnext⟩ := ih ((rows_trial coupling kt field q _).trans hrows)
      ((cols_trial coupling kt field q _).trans hcols) (propose (α := α) n m rng).2
    exact ⟨q₁, Result.bind_eq_ok_iff.mpr ⟨_, hturn, hturns⟩, hnext⟩

theorem sameTurns (hfield : Finds m n fieldAt field) (hfield' : Finds m n fieldAt' field')
    (hm : 0 < m) (hn : 0 < n) : SameTurns m n fieldAt fieldAt' field field' := by
  intro coupling coupling' kt kt' q q' hrows hcols hrows' hcols' rng k
  obtain ⟨q₁, hturns, hnext⟩ := turn_eq hfield hm hn coupling kt hrows hcols rng k
  obtain ⟨q₁', hturns', hnext'⟩ := turn_eq hfield' hm hn coupling' kt' hrows' hcols' rng k
  exact ⟨q₁, q₁', _, _, _, hturns, hturns', rfl, hnext, hnext'⟩

end Turns

section Dense
variable [Transcendental α]

theorem map_proposal_sweepMoves (g kt : α) (field : Matrix α → Proposal α → α) (q : Matrix α)
    (ps : List (Proposal α)) : (sweepMoves g kt field q ps).map Move.proposal = ps :=
  map_proposal_trialMoves _ kt field q ps

theorem chain_denseMoves (model : Dense.Ising α) (m : ℕ) (g kt : α) (q : Matrix α)
    (rng : Random.Generator) :
    Chain flip q (denseMoves model m g kt q rng) (denseStep model m g kt q rng).1 :=
  chain_sweepMoves g kt _ q _

/-- What a step leaves of the generator comes from the number of variables and of slices. -/
theorem snd_denseStep (model : Dense.Ising α) (m : ℕ) (g kt : α) (q : Matrix α)
    (rng : Random.Generator) : (denseStep model m g kt q rng).2 =
      (proposals (α := α) model.size m rng).2 := rfl

theorem oblivious_dense : Oblivious (F := denseFamily α) denseMoves where
  extent_signed model d := congrArg Extent.dense (model.size_signed d)
  checkStart {model model'} h x := by
    have hsize : model.size = model'.size := Extent.dense.inj h
    simp only [Annealable.checkStart, hsize]
  random {model model'} h m rng := by
    have hsize : model.size = model'.size := Extent.dense.inj h
    simp only [Annealable.random, hsize]
  rng_step {model model'} h m g g' kt kt' q q' rng := by
    have hsize : model.size = model'.size := Extent.dense.inj h
    simp only [Annealable.step, snd_denseStep, hsize]
  proposals {model model'} h m g g' kt kt' q q' rng := by
    have hsize : model.size = model'.size := Extent.dense.inj h
    simp only [denseMoves, map_proposal_sweepMoves, hsize]

end Dense

section Bipartite
variable [Transcendental α] (model : Bipartite.Ising α) (m : ℕ) (g kt : α) (q : LayerSpins α)
  (ps : List (Proposal α)) (rng : Random.Generator)

theorem map_proposal_secondMoves :
    (secondMoves model m g kt q ps).map Move.proposal = ps.map .second := by
  conv_rhs => rw [← map_proposal_sweepMoves g kt
    (layerField model.h1 (layerFields model.j q.q0 m)) q.q1 ps]
  rw [secondMoves, List.map_map, List.map_map]
  rfl

theorem map_proposal_firstMoves :
    (firstMoves model m g kt q ps).map Move.proposal = ps.map .first := by
  conv_rhs => rw [← map_proposal_sweepMoves g kt
    (layerField model.h0 (layerFields model.j.transpose q.q1 m)) q.q0 ps]
  rw [firstMoves, List.map_map, List.map_map]
  rfl

theorem chain_bipartiteMoves : Chain flipLayer q (bipartiteMoves model m g kt q rng)
    (bipartiteStep model m g kt q rng).1 := by
  rw [bipartiteStep_eq]
  have hsecond : Chain flipLayer q (secondMoves model m g kt q (layerProposals model m rng).1)
      (sweepSecond model m g kt q (layerProposals model m rng).1) :=
    (chain_sweepMoves g kt _ q.q1 _).map flipLayer_second
  refine hsecond.append ?_
  exact (chain_sweepMoves g kt _ q.q0 _).map (f := (LayerSpins.mk · _))
    fun q₀ p => flipLayer_first q₀ _ p

theorem snd_bipartiteStep : (bipartiteStep model m g kt q rng).2 =
    (proposals (α := α) model.h0.length m (proposals (α := α) model.h1.length m rng).2).2 := rfl

theorem oblivious_bipartite : Oblivious (F := bipartiteFamily α) bipartiteMoves where
  extent_signed model d :=
    congrArg₂ Extent.bipartite (model.length_h0_signed d) (model.length_h1_signed d)
  checkStart {model model'} h x := by
    obtain ⟨h0, h1⟩ := Extent.bipartite.inj h
    simp only [Annealable.checkStart, h0, h1]
  random {model model'} h m rng := by
    obtain ⟨h0, h1⟩ := Extent.bipartite.inj h
    simp only [Annealable.random, bipartiteRandom, h0, h1]
  rng_step {model model'} h m g g' kt kt' q q' rng := by
    obtain ⟨h0, h1⟩ := Extent.bipartite.inj h
    simp only [Annealable.step, snd_bipartiteStep, h0, h1]
  proposals {model model'} h m g g' kt kt' q q' rng := by
    obtain ⟨h0, h1⟩ := Extent.bipartite.inj h
    simp only [bipartiteMoves, List.map_append, map_proposal_secondMoves, map_proposal_firstMoves,
      layerProposals, h0, h1]

end Bipartite

section Runs
variable {F : Family} {β : Type} [Annealable F α] [Storable F α]
  {moves : F.Model → ℕ → α → α → F.Spins → Random.Generator → List (Move F.Spins β α)}

/-- Two annealers consume randomness alike once they have been seeded. -/
structure DrawsAlike
    (moves : F.Model → ℕ → α → α → F.Spins → Random.Generator → List (Move F.Spins β α))
    (entropy entropy' : Random.Generator) (value : UInt64)
    (before before' after after' : List (Request F α)) : Prop where
  /-- Each request draws the same for both, and leaves both with the same generator; so does each
  stage of a complete run. -/
  drawings :
    let s := (Session.new entropy).run (before ++ [.seed value])
    let s' := (Session.new entropy').run (before' ++ [.seed value])
    s.drawings moves (s.partsOver after) = s'.drawings moves (s'.partsOver after')
  /-- The stages leave what the requests leave. -/
  stages :
    let s := (Session.new entropy).run (before ++ [.seed value])
    let s' := (Session.new entropy').run (before' ++ [.seed value])
    s.run (s.partsOver after) = s.run after ∧ s'.run (s'.partsOver after') = s'.run after'
  /-- In storage, too, both are left with the same generator. -/
  stored : ∀ st st', (Memory.new entropy).run (before ++ .seed value :: after) = .ok st →
    (Memory.new entropy').run (before' ++ .seed value :: after') = .ok st' →
      ∃ rng, st.rng = some rng ∧ st'.rng = some rng

theorem drawsAlike (hF : Oblivious moves) {L : Layout F} (hL : Faithful L)
    (entropy entropy' : Random.Generator) (value : UInt64)
    {before before' after after' : List (Request F α)}
    (hbefore : List.Forall₂ Request.Alike before before')
    (hafter : List.Forall₂ Request.Alike after after') :
    DrawsAlike moves entropy entropy' value before before' after after' := by
  have hseeded := Session.Alike.run_seeded hF entropy entropy' value hbefore
  refine ⟨hseeded.drawings_eq hF (hseeded.partsOver hF hafter),
    ⟨Session.run_partsOver _ after, Session.run_partsOver _ after'⟩, fun st st' hst hst' => ?_⟩
  obtain ⟨rng, hrng, hrng'⟩ := (hseeded.run hF hafter).rng trivial
  have hshown := (Memory.stores_of_run hL entropy hst).shows.rng
  have hshown' := (Memory.stores_of_run hL entropy' hst').shows.rng
  rw [Session.run, List.append_cons, List.foldl_append] at hshown hshown'
  exact ⟨rng, hshown.symm.trans hrng, hshown'.symm.trans hrng'⟩

end Runs

/-- Annealers that are asked for the same on problems of one size, from the same seed, draw the same
spins and propose the same trials, and every request leaves them the same generator, whatever
the coefficients, the directions, the fields and the temperatures. The trials are those that lead
from the spins before a step to the spins after it; in storage, where a trial draws its numbers when
its turn comes, each turn finds the same generator and tries the same proposal. -/
theorem annealers_draw_alike {α : Type} [Scalar α] [Transcendental α]
    (entropy entropy' : Random.Generator) (value : UInt64) :
    (∀ before before' after after' : List (Request (denseFamily α) α),
      List.Forall₂ Request.Alike before before' → List.Forall₂ Request.Alike after after' →
        DrawsAlike denseMoves entropy entropy' value before before' after after') ∧
    (∀ before before' after after' : List (Request (bipartiteFamily α) α),
      List.Forall₂ Request.Alike before before' → List.Forall₂ Request.Alike after after' →
        DrawsAlike bipartiteMoves entropy entropy' value before before' after after') ∧
    (∀ (s s' : DenseSession α) (g kt : α), s.annealOneStep g kt = .ok s' →
      ∃ q q', s.spins = some q ∧ s'.spins = some q' ∧
        Chain flip q (s.trials denseMoves g kt) q') ∧
    (∀ (s s' : BipartiteSession α) (g kt : α), s.annealOneStep g kt = .ok s' →
      ∃ q q', s.spins = some q ∧ s'.spins = some q' ∧
        Chain flipLayer q (s.trials bipartiteMoves g kt) q') ∧
    (∀ (model model' : Dense.Ising α) (m : ℕ), model.IsSquare → model'.IsSquare →
      model.size = model'.size → 0 < m → 0 < model.size →
        SameTurns m model.size (denseFieldAt model) (denseFieldAt model') (denseField model)
          (denseField model')) ∧
    ∀ (h h' : List α) (j j' fixed fixed' : Matrix α) (m : ℕ), j.rows = h.length →
      j'.rows = h'.length → h.length = h'.length → 0 < m → 0 < h.length →
        SameTurns m h.length
          (layerFieldAt h ((List.range m).map fun slice => j.mulVec (fixed.row slice)))
          (layerFieldAt h' ((List.range m).map fun slice => j'.mulVec (fixed'.row slice)))
          (layerField h (layerFields j fixed m)) (layerField h' (layerFields j' fixed' m)) := by
  refine ⟨fun _ _ _ _ hbefore hafter => ?_, fun _ _ _ _ hbefore hafter => ?_,
    fun s s' g kt => Session.chain_trials chain_denseMoves,
    fun s s' g kt => Session.chain_trials chain_bipartiteMoves,
    fun model model' m hmodel hmodel' hsize hm hn => ?_,
    fun h h' j j' fixed fixed' m hj hj' hlength hm hn => ?_⟩
  · exact drawsAlike oblivious_dense faithful_dense entropy entropy' value hbefore hafter
  · exact drawsAlike oblivious_bipartite faithful_bipartite entropy entropy' value hbefore hafter
  · exact sameTurns (finds_denseField hmodel m) (hsize ▸ finds_denseField hmodel' m) hm hn
  · exact sameTurns (finds_layerField hj fixed m) (hlength ▸ finds_layerField hj' fixed' m) hm hn

/-- Different weights in either direction, and a step at a field and a temperature that are no
numbers. -/
theorem annealers_draw_alike_of_nan :
    let nan : Float := 0.0 / 0.0
    let schedule : Schedule Float := ⟨1.0, 0.75, 0.5, 2.0, none⟩
    let schedule' : Schedule Float := ⟨8.0, 2.5, 0.25, 1.0, none⟩
    let before : List (Request (denseFamily Float) Float) :=
      [.setProblem (.fill 2 2 1.0) .maximize, .setTrotters 2]
    let before' : List (Request (denseFamily Float) Float) :=
      [.setProblem (.fill 2 2 (-7.5)) .minimize, .setTrotters 2]
    let after : List (Request (denseFamily Float) Float) :=
      [.initAnneal, .annealOneStep 5.0 0.02, .solve schedule]
    let after' : List (Request (denseFamily Float) Float) :=
      [.initAnneal, .annealOneStep nan nan, .solve schedule']
    let s : DenseSession Float := (Session.new (.ofSeed 1)).run (before ++ [.seed 3])
    let layered : List (Request (bipartiteFamily Float) Float) :=
      [.setProblem ⟨[0.5], [1.0, 2.0], .fill 2 1 1.0⟩ .maximize]
    let layered' : List (Request (bipartiteFamily Float) Float) :=
      [.setProblem ⟨[3.0], [0.0, -1.0], .fill 2 1 nan⟩ .minimize]
    let steps : List (Request (bipartiteFamily Float) Float) :=
      [.initAnneal, .annealOneStep 5.0 0.02]
    let steps' : List (Request (bipartiteFamily Float) Float) :=
      [.initAnneal, .annealOneStep nan nan]
    let t : BipartiteSession Float := (Session.new (.ofSeed 1)).run (layered ++ [.seed 3])
    let model : Dense.Ising Float := ⟨[0.5, 1.0], .fill 2 2 1.0, 0.0⟩
    let model' : Dense.Ising Float := ⟨[nan, 0.0], .fill 2 2 nan, 0.0⟩
    let felt (w : Float) : List (List Float) := (List.range 2).map fun slice =>
      (Matrix.fill 2 1 w).mulVec ((Matrix.fill 2 1 1.0).row slice)
    List.Forall₂ Request.Alike before before' ∧ List.Forall₂ Request.Alike after after' ∧
      DrawsAlike denseMoves (.ofSeed 1) (.ofSeed 2) 3 before before' after after' ∧
      ((s.drawings denseMoves (s.partsOver after)).map fun d => d.1.length) =
        [1, 4, 1, 0, 4, 0] ∧
      List.Forall₂ Request.Alike layered layered' ∧ List.Forall₂ Request.Alike steps steps' ∧
      DrawsAlike bipartiteMoves (.ofSeed 1) (.ofSeed 2) 3 layered layered' steps steps' ∧
      ((t.drawings bipartiteMoves (t.partsOver steps)).map fun d => d.1.length) = [1, 3] ∧
      (∃ s', (s.run [.initAnneal]).annealOneStep nan nan = .ok s' ∧ ∃ q q',
        (s.run [.initAnneal]).spins = some q ∧ s'.spins = some q' ∧
          Chain flip q ((s.run [.initAnneal]).trials denseMoves nan nan) q') ∧
      (∃ t', (t.run [.initAnneal]).annealOneStep nan nan = .ok t' ∧ ∃ q q',
        (t.run [.initAnneal]).spins = some q ∧ t'.spins = some q' ∧
          Chain flipLayer q ((t.run [.initAnneal]).trials bipartiteMoves nan nan) q') ∧
      SameTurns 2 2 (denseFieldAt model) (denseFieldAt model') (denseField model)
        (denseField model') ∧
      SameTurns 2 2 (layerFieldAt [0.5, 1.0] (felt 1.0)) (layerFieldAt [nan, 0.0] (felt nan))
        (layerField [0.5, 1.0] (layerFields (.fill 2 1 1.0) (.fill 2 1 1.0) 2))
        (layerField [nan, 0.0] (layerFields (.fill 2 1 nan) (.fill 2 1 1.0) 2)) := by
  intro nan schedule schedule' before before' after after' s layered layered' steps steps' t model
    model' felt
  have hbefore : List.Forall₂ Request.Alike before before' :=
    .cons (.setProblem _ _ (by decide +kernel)) (.cons (.setTrotters 2) .nil)
  have hvalid : schedule.validate = .ok () := by decide +kernel
  have hvalid' : schedule'.validate = .ok () := by decide +kernel
  have hschedule : schedule.Alike schedule' :=
    ⟨rfl, by decide +kernel, by rw [hvalid, hvalid']; exact .ok trivial⟩
  have hafter : List.Forall₂ Request.Alike after after' :=
    .cons .initAnneal (.cons (.annealOneStep ..) (.cons (.solve hschedule) .nil))
  have hlayered : List.Forall₂ Request.Alike layered layered' :=
    .cons (.setProblem _ _ (by decide +kernel)) .nil
  have hsteps : List.Forall₂ Request.Alike steps steps' :=
    .cons .initAnneal (.cons (.annealOneStep ..) .nil)
  obtain ⟨hdense, hbipartite, hchain, hchain', hturns, hturns'⟩ :=
    annealers_draw_alike (α := Float) (.ofSeed 1) (.ofSeed 2) 3
  obtain ⟨s', hs'⟩ := Result.exists_eq_ok (x := (s.run [.initAnneal]).annealOneStep nan nan)
    (by decide +kernel)
  obtain ⟨t', ht'⟩ := Result.exists_eq_ok (x := (t.run [.initAnneal]).annealOneStep nan nan)
    (by decide +kernel)
  exact ⟨hbefore, hafter, hdense before before' after after' hbefore hafter, by decide +kernel,
    hlayered, hsteps, hbipartite layered layered' steps steps' hlayered hsteps, by decide +kernel,
    ⟨s', hs', hchain _ s' nan nan hs'⟩, ⟨t', ht', hchain' _ t' nan nan ht'⟩,
    hturns model model' 2 ⟨rfl, rfl⟩ ⟨rfl, rfl⟩ rfl two_pos two_pos,
    hturns' [0.5, 1.0] [nan, 0.0] (.fill 2 1 1.0) (.fill 2 1 nan) (.fill 2 1 1.0) (.fill 2 1 1.0) 2
      rfl rfl rfl two_pos two_pos⟩

end Qubo.Anneal

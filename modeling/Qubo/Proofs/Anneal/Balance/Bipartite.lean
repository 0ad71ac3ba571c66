import Mathlib.Tactic
import Qubo.Proofs.Anneal.Balance.Moves
import Qubo.Proofs.Anneal.Balance.Ring
import Qubo.Proofs.Anneal.Bipartite

/-! Annealing of bipartite problems keeps its books: while one layer moves, the fields of the other
stay what they were when they were computed, so that every trial costs the change of an energy of
all slices, and over any number of steps the costs paid are the change of that energy. -/
namespace Qubo.Anneal
open Finset

/-- A flip in one of the layers. -/
inductive LayerProposal (α : Type) where
  | first (p : Proposal α)
  | second (p : Proposal α)

def flipLayer {α : Type} [Scalar α] (q : LayerSpins α) : LayerProposal α → LayerSpins α
  | .first p => { q with q0 := flip q.q0 p }
  | .second p => { q with q1 := flip q.q1 p }

theorem flipLayer_first {α : Type} [Scalar α] (q0 q1 : Matrix α) (p : Proposal α) :
    LayerSpins.mk (flip q0 p) q1 = flipLayer ⟨q0, q1⟩ (.first p) := rfl

theorem flipLayer_second {α : Type} [Scalar α] {q0 : Matrix α} (q1 : Matrix α) (p : Proposal α) :
    LayerSpins.mk q0 (flip q1 p) = flipLayer ⟨q0, q1⟩ (.second p) := rfl

def LayerProposal.Within {α : Type} (n0 n1 m : ℕ) : LayerProposal α → Prop
  | .first p => p.Within n0 m
  | .second p => p.Within n1 m

section Steps
variable {α : Type} [Scalar α] [Transcendental α] (model : Bipartite.Ising α) (m : ℕ) (g kt : α)
  (q : LayerSpins α) (ps : List (Proposal α)) (rng : Random.Generator)

/-- The second layer moves in the fields of the first. -/
def sweepSecond : LayerSpins α :=
  ⟨q.q0, sweep g kt (layerField model.h1 (layerFields model.j q.q0 m)) q.q1 ps⟩

/-- The first layer moves in the fields of the second. -/
def sweepFirst : LayerSpins α :=
  ⟨sweep g kt (layerField model.h0 (layerFields model.j.transpose q.q1 m)) q.q0 ps, q.q1⟩

def secondMoves : List (Move (LayerSpins α) (LayerProposal α) α) :=
  (sweepMoves g kt (layerField model.h1 (layerFields model.j q.q0 m)) q.q1 ps).map
    (Move.map (LayerSpins.mk q.q0) .second)

def firstMoves : List (Move (LayerSpins α) (LayerProposal α) α) :=
  (sweepMoves g kt (layerField model.h0 (layerFields model.j.transpose q.q1 m)) q.q0 ps).map
    (Move.map (LayerSpins.mk · q.q1) .first)

/-- The proposals of either half of a step: those for the second layer are drawn first. -/
def layerProposals : List (Proposal α) × List (Proposal α) :=
  let second := proposals (α := α) model.h1.length m rng
  (second.1, (proposals model.h0.length m second.2).1)

/-- The trials of one step. -/
def bipartiteMoves : List (Move (LayerSpins α) (LayerProposal α) α) :=
  let ps := layerProposals model m rng
  secondMoves model m g kt q ps.1 ++
    firstMoves model m g kt (sweepSecond model m g kt q ps.1) ps.2

theorem bipartiteStep_eq : (bipartiteStep model m g kt q rng).1 =
    sweepFirst model m g kt (sweepSecond model m g kt q (layerProposals model m rng).1)
      (layerProposals model m rng).2 := rfl

variable {model m g kt q ps rng}

/-- The first layer does not move while the second one does. -/
theorem q0_of_mem_secondMoves {t : Move (LayerSpins α) (LayerProposal α) α}
    (ht : t ∈ secondMoves model m g kt q ps) :
    t.before.q0 = q.q0 ∧ (t.after flipLayer).q0 = q.q0 := by
  obtain ⟨t, -, rfl⟩ := List.mem_map.mp ht
  refine ⟨rfl, ?_⟩
  rw [Move.after_map flipLayer_second]

theorem q1_of_mem_firstMoves {t : Move (LayerSpins α) (LayerProposal α) α}
    (ht : t ∈ firstMoves model m g kt q ps) :
    t.before.q1 = q.q1 ∧ (t.after flipLayer).q1 = q.q1 := by
  obtain ⟨t, -, rfl⟩ := List.mem_map.mp ht
  refine ⟨rfl, ?_⟩
  rw [Move.after_map fun q₀ p => flipLayer_first q₀ q.q1 p]

theorem length_bipartiteMoves :
    (bipartiteMoves model m g kt q rng).length = (model.h0.length + model.h1.length) * m := by
  simp only [bipartiteMoves, secondMoves, firstMoves, layerProposals, List.length_append,
    List.length_map, length_sweepMoves, proposals, Random.Draw.length_many]
  ring

theorem within_of_mem_bipartiteMoves {t : Move (LayerSpins α) (LayerProposal α) α}
    (ht : t ∈ bipartiteMoves model m g kt q rng) :
    t.proposal.Within model.h0.length model.h1.length m := by
  rcases List.mem_append.mp ht with ht | ht
  · obtain ⟨u, hu, rfl⟩ := List.mem_map.mp ht
    exact proposals_within _ m _ _ (proposal_mem_of_mem_sweepMoves _ _ _ hu)
  · obtain ⟨u, hu, rfl⟩ := List.mem_map.mp ht
    exact proposals_within _ m _ _ (proposal_mem_of_mem_sweepMoves _ _ _ hu)

end Steps

/-- The energy of all slices of a bipartite problem. -/
def bipartiteEnergy (model : Bipartite.Ising ℚ) (coupling : ℚ) (q : LayerSpins ℚ) : ℚ :=
  1 / (q.q0.rows : ℚ) *
      ∑ k ∈ range q.q0.rows, model.energy (q.q0.row k) (q.q1.row k) +
    coupling / 2 * (ringSum q.q0 + ringSum q.q1)

variable {model : Bipartite.Ising ℚ} {m : ℕ} {q : LayerSpins ℚ} {ps : List (Proposal ℚ)}

/-- A flip costs what it changes in the energy of the slices of the moving layer, if each slice has
the biases and, once and for all, the couplings to the fixed layer. -/
theorem flipCost_layer {slice : ℕ → List ℚ → ℚ} {base : ℕ → ℚ} {h : List ℚ} {j qFixed : Matrix ℚ}
    {qMoving : Matrix ℚ} (hrows : qMoving.rows = m) (hcols : qMoving.cols = h.length)
    (hslices : ∀ k < m, ∀ v : List ℚ, v.length = h.length →
      slice k v = base k + Scalar.dot h v + Scalar.dot v (j.mulVec (qFixed.row k)))
    {p : Proposal ℚ} (hp : p.Within h.length m) (coupling : ℚ) :
    flipCost coupling qMoving p (layerField h (layerFields j qFixed m) qMoving p) =
      ringEnergy slice coupling (flip qMoving p) - ringEnergy slice coupling qMoving := by
  have hslice : p.slice < qMoving.rows := hrows.symm ▸ hp.2
  have hsite : p.site < qMoving.cols := hcols.symm ▸ hp.1
  have hlength : (qMoving.row p.slice).length = h.length :=
    (qMoving.length_row hslice).trans hcols
  have hset (u : List ℚ) := Scalar.dot_set_sub u (hlength.symm ▸ hp.1)
    (-(qMoving.entry p.slice p.site))
  have hbias := hset h
  have hcoupling := hset (j.mulVec (qFixed.row p.slice))
  rw [qMoving.getElem?_row hslice hsite, Option.getD_some] at hbias hcoupling
  refine flipCost_eq_sub coupling hslice hsite ?_
  rw [layerField_rat hp.2, hslices _ hp.2 _ hlength, hslices _ hp.2 _ (List.length_set.trans hlength),
    Scalar.dot_comm h, Scalar.dot_comm h]
  linear_combination hbias + hcoupling

theorem balanced_sweepSecond [Transcendental ℚ] (hq : FitsLayers model m q)
    (hps : ∀ p ∈ ps, p.Within model.h1.length m) (g kt : ℚ) :
    Balanced flipLayer (bipartiteEnergy model (trotterCoupling g kt m)) q
      (secondMoves model m g kt q ps) (sweepSecond model m g kt q ps) := by
  obtain ⟨⟨hrows0, -⟩, hrows1, hcols1⟩ := hq
  have hslices (k : ℕ) (_ : k < m) (v : List ℚ) (_ : v.length = model.h1.length) :
      model.energy (q.q0.row k) v = model.c + Scalar.dot model.h0 (q.q0.row k) +
        Scalar.dot model.h1 v + Scalar.dot v (model.j.mulVec (q.q0.row k)) := rfl
  refine Balanced.map flipLayer_second
    (balanced_sweep fun q₀ hrows hcols p hp => ?_)
  rw [hrows1] at hrows ⊢
  rw [flipCost_layer hrows (hcols.trans hcols1) hslices (hps p hp)]
  simp only [bipartiteEnergy, ringEnergy, rows_flip, hrows0, hrows]
  ring

theorem balanced_sweepFirst [Transcendental ℚ] (hq : FitsLayers model m q)
    (hps : ∀ p ∈ ps, p.Within model.h0.length m) (g kt : ℚ) :
    Balanced flipLayer (bipartiteEnergy model (trotterCoupling g kt m)) q
      (firstMoves model m g kt q ps) (sweepFirst model m g kt q ps) := by
  obtain ⟨⟨hrows0, hcols0⟩, -, -⟩ := hq
  have hslices (k : ℕ) (_ : k < m) (v : List ℚ) (_ : v.length = model.h0.length) :=
    model.energy_from_first v (q.q1.row k)
  refine Balanced.map (f := (LayerSpins.mk · q.q1)) (fun q₀ p => flipLayer_first q₀ q.q1 p)
    (balanced_sweep fun q₀ hrows hcols p hp => ?_)
  rw [hrows0] at hrows ⊢
  rw [flipCost_layer hrows (hcols.trans hcols0) hslices (hps p hp)]
  simp only [bipartiteEnergy, ringEnergy, rows_flip, hrows]
  ring

theorem FitsLayers.sweepSecond [Transcendental ℚ] (hq : FitsLayers model m q) (g kt : ℚ)
    (ps : List (Proposal ℚ)) : FitsLayers model m (sweepSecond model m g kt q ps) :=
  ⟨hq.1, (rows_sweep ..).trans hq.2.1, (cols_sweep ..).trans hq.2.2⟩

/-- The cost of every trial is the change that its flip makes in the energy of all slices, whatever
is proposed in the two halves of a step, and in either half the other layer stays as it was. So it
is in every trial of any number of steps that an annealer takes, and there the costs paid add up to
the change from the first spins to the last. -/
theorem bipartite_steps_balanced [Transcendental ℚ] {p : Bipartite.Coefficients ℚ}
    (hp : p.check = .ok ()) (d : Direction) :
    ∃ model, p.ising = .ok model ∧ ∀ (m : ℕ) (g kt : ℚ) (q : LayerSpins ℚ),
      FitsLayers (model.signed d) m q →
      (∀ ps ps' : List (Proposal ℚ), (∀ p' ∈ ps, p'.Within p.b1.length m) →
        (∀ p' ∈ ps', p'.Within p.b0.length m) →
        let q' := sweepSecond (model.signed d) m g kt q ps
        Balanced flipLayer (bipartiteEnergy (model.signed d) (trotterCoupling g kt m)) q
          (secondMoves (model.signed d) m g kt q ps) q' ∧
        (∀ t ∈ secondMoves (model.signed d) m g kt q ps,
          t.before.q0 = q.q0 ∧ (t.after flipLayer).q0 = q.q0) ∧
        Balanced flipLayer (bipartiteEnergy (model.signed d) (trotterCoupling g kt m)) q'
          (firstMoves (model.signed d) m g kt q' ps') (sweepFirst (model.signed d) m g kt q' ps') ∧
        ∀ t ∈ firstMoves (model.signed d) m g kt q' ps',
          t.before.q1 = q'.q1 ∧ (t.after flipLayer).q1 = q'.q1) ∧
      ∀ (s : BipartiteSession ℚ) (rng : Random.Generator) (k : ℕ),
        s.Running (model.signed d) m q rng → ∃ s' q' rng',
          (List.replicate k g).foldlM (fun s g => s.annealOneStep g kt) s = .ok s' ∧
          s'.Running (model.signed d) m q' rng' ∧ FitsLayers (model.signed d) m q' ∧
          let ts := movesOver (bipartiteStep (model.signed d) m g kt)
            (bipartiteMoves (model.signed d) m g kt) k q rng
          ts.length = k * ((p.b0.length + p.b1.length) * m) ∧
          (∀ t ∈ ts, t.proposal.Within p.b0.length p.b1.length m) ∧
          Balanced flipLayer (bipartiteEnergy (model.signed d) (trotterCoupling g kt m)) q ts
            q' := by
  obtain ⟨model, hmodel⟩ : ∃ model, p.ising = .ok model :=
    ⟨_, Bipartite.Coefficients.ising_eq_ok_iff.mpr ⟨hp, rfl⟩⟩
  obtain ⟨hlength0, hlength1⟩ := Bipartite.Coefficients.length_h_ising hmodel
  rw [← model.length_h0_signed d] at hlength0
  rw [← model.length_h1_signed d] at hlength1
  refine ⟨model, hmodel, fun m g kt q hq => ⟨fun ps ps' hps hps' => ?_, fun s rng k hs => ?_⟩⟩
  · refine ⟨?_, fun t => q0_of_mem_secondMoves, ?_, fun t => q1_of_mem_firstMoves⟩
    · exact balanced_sweepSecond hq (hlength1 ▸ hps) g kt
    · exact balanced_sweepFirst (hq.sweepSecond g kt ps) (hlength0 ▸ hps') g kt
  · have hstep (q : LayerSpins ℚ) (rng : Random.Generator) (hq : FitsLayers (model.signed d) m q) :
        FitsLayers (model.signed d) m (bipartiteStep (model.signed d) m g kt q rng).1 ∧
        Balanced flipLayer (bipartiteEnergy (model.signed d) (trotterCoupling g kt m)) q
          (bipartiteMoves (model.signed d) m g kt q rng)
          (bipartiteStep (model.signed d) m g kt q rng).1 := by
      refine ⟨steady_fitsLayers.step _ m g kt q rng hq, ?_⟩
      rw [bipartiteStep_eq]
      exact (balanced_sweepSecond hq (proposals_within _ m rng) g kt).append
        (balanced_sweepFirst (hq.sweepSecond g kt _) (proposals_within _ m _) g kt)
    obtain ⟨s', q', rng', hrun, hs', hq', hbalanced⟩ := hs.balanced_steps hstep hq k
    refine ⟨s', q', rng', hrun, hs', hq', ?_, ?_, hbalanced⟩
    · refine length_movesOver (fun q rng => ?_) k q rng
      rw [length_bipartiteMoves, hlength0, hlength1]
    · refine forall_mem_movesOver (fun q rng t ht => ?_) k q rng
      exact hlength0 ▸ hlength1 ▸ within_of_mem_bipartiteMoves ht

/-- Two variables and one beside them, in a single slice that is its own neighbour. -/
theorem bipartite_steps_balanced_of_three :
    letI : Transcendental ℚ := ⟨id, id, id, id⟩
    let p : Bipartite.Coefficients ℚ := ⟨[1, -1], [2], .generate 1 2 fun _ c => c - 2⟩
    let requests : List (Request (bipartiteFamily ℚ) ℚ) :=
      [.setProblem p .minimize, .setTrotters 1, .initAnneal]
    let s : BipartiteSession ℚ := (Session.new (.ofSeed 0)).run requests
    let p1 : Proposal ℚ := ⟨0, 0, 1 / 2⟩
    let p0 : Proposal ℚ := ⟨1, 0, 0⟩
    p.check = .ok () ∧ p1.Within 1 1 ∧ p0.Within 2 1 ∧ ∃ model q rng, p.ising = .ok model ∧
      FitsLayers (model.signed .minimize) 1 q ∧ s.Running (model.signed .minimize) 1 q rng ∧
      Balanced flipLayer (bipartiteEnergy (model.signed .minimize) (trotterCoupling 5 2 1)) q
        (secondMoves (model.signed .minimize) 1 5 2 q [p1])
        (sweepSecond (model.signed .minimize) 1 5 2 q [p1]) ∧
      ∃ s' q' rng', (List.replicate 3 5).foldlM (fun s g => s.annealOneStep g 2) s = .ok s' ∧
        s'.Running (model.signed .minimize) 1 q' rng' ∧
        Balanced flipLayer (bipartiteEnergy (model.signed .minimize) (trotterCoupling 5 2 1)) q
          (movesOver (bipartiteStep (model.signed .minimize) 1 5 2)
            (bipartiteMoves (model.signed .minimize) 1 5 2) 3 q rng) q' := by
  intro p requests s p1 p0
  let _ : Transcendental ℚ := ⟨id, id, id, id⟩
  have hp : p.check = .ok () := by decide +kernel
  have hp1 : p1.Within 1 1 := ⟨by decide, by decide⟩
  have hp0 : p0.Within 2 1 := ⟨by decide, by decide⟩
  obtain ⟨model, hmodel, hbalanced⟩ := bipartite_steps_balanced hp .minimize
  obtain ⟨hsound, hfollows⟩ := Session.run_new steady_fitsLayers (.ofSeed 0) requests
    fun _ _ => trivial
  have hgiven : Annealable.model (F := bipartiteFamily ℚ) p = .ok model := hmodel
  have hloaded : loaded requests = some (p, .minimize) := by
    simp [requests, loaded, Request.load, hgiven]
  rw [hloaded] at hfollows
  obtain ⟨m, q, rng, -, hq, hs⟩ :=
    hsound.exists_running hfollows (by decide +kernel) hgiven
  have htrotters : some 1 = s.trotters := by decide +kernel
  obtain rfl : 1 = m := Option.some.inj (htrotters.trans hs.trotters)
  obtain ⟨hhalves, hsteps⟩ := hbalanced 1 5 2 q hq
  obtain ⟨hsecond, -⟩ := hhalves [p1] [p0] (fun p' hp' => List.mem_singleton.mp hp' ▸ hp1)
    fun p' hp' => List.mem_singleton.mp hp' ▸ hp0
  obtain ⟨s', q', rng', hrun, hs', -, -, -, htotal⟩ := hsteps s rng 3 hs
  exact ⟨hp, hp1, hp0, model, q, rng, hmodel, hq, hs, hsecond, s', q', rng', hrun, hs', htotal⟩

end Qubo.Anneal

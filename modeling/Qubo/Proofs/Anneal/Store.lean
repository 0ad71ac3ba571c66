import Mathlib.Tactic
import Qubo.Json.Snapshot
import Qubo.Proofs.Anneal.Store.Bipartite
import Qubo.Proofs.Anneal.Store.Dense
import Qubo.Proofs.Anneal.Store.Run

/-! No sequence of requests brings an annealer to a fault: flags, slices and spins stay in step, so
that no index is out of range, nothing is divided by zero, and a prepared annealer takes every step
and can be read out. Spins stay of either sign if the caller starts from zeros and ones. -/
namespace Qubo.Anneal
section
variable {F : Family} {α : Type} [Scalar α] [Annealable F α] [Storable F α]

/-- What holds of an annealer in storage after a sequence of requests. -/
structure Upholds (L : Layout F) (binary : F.Solution → Prop) (allSpins : F.Spins → Prop)
    (entropy : Random.Generator) (requests : List (Request F α)) : Prop where
  /-- A run faults only for want of room. -/
  faults : ∀ f, (Memory.new entropy).run requests = .error f → f = .capacity
  /-- With room for the slices of every session on the way it does not fault. -/
  runs : (∀ before, before <+: requests → ((Session.new entropy).run before).HasRoom L) →
    ∃ st, (Memory.new entropy).run requests = .ok st
  valid : ∀ st, (Memory.new entropy).run requests = .ok st → st.Valid L
  shows : ∀ st, (Memory.new entropy).run requests = .ok st →
    st.Shows ((Session.new entropy).run requests)
  /-- Spins that are set are of either sign, if the caller starts from zeros and ones. -/
  spins : ∀ st, (Memory.new entropy).run requests = .ok st → (∀ x, .setX x ∈ requests → binary x) →
    st.spinsSet = true → allSpins st.spins
  /-- The next request is answered as by the session, if there is room for the slices then. -/
  answers : ∀ st, (Memory.new entropy).run requests = .ok st → ∀ r,
    (((Session.new entropy).run requests).step r).1.HasRoom L →
      ∃ st', st.answer r = .ok (st', (((Session.new entropy).run requests).step r).2)
  /-- Once prepared, steps and the readings are never refused. -/
  prepared : ∀ st, (Memory.new entropy).run requests = .ok st → st.prepared = true →
    (∀ g kt, ∃ st', st.answer (.annealOneStep g kt) = .ok (st', .ok none)) ∧
      ∃ st', st.answer .finAnneal = .ok (st', .ok none)

theorem upholds {L : Layout F} (hF : Faithful L) {binary : F.Solution → Prop}
    {allSpins : F.Spins → Prop} (hspins : Steady binary fun _ _ q => allSpins q)
    (entropy : Random.Generator) (requests : List (Request F α)) :
    Upholds L binary allSpins entropy requests := by
  have hrun := Memory.run_agrees hF (Memory.stores_new (L := L) entropy) requests
  have hstores (st : Memory F α) (hst : (Memory.new entropy).run requests = .ok st) :=
    Memory.stores_of_run hF entropy hst
  refine ⟨fun f hf => ?_, fun hroom => ?_, fun st hst => (hstores st hst).valid,
    fun st hst => (hstores st hst).shows, fun st hst hbinary hset => ?_, fun st hst r hroom => ?_,
    fun st hst hprepared => ?_⟩
  · rcases hrun with ⟨hfault, -⟩ | ⟨st, hst, -⟩
    · exact (Except.error.inj (hfault.symm.trans hf)).symm
    · exact nomatch hst.symm.trans hf
  · rcases hrun with ⟨-, before, hbefore, hfull⟩ | ⟨st, hst, -⟩
    · exact absurd (hroom before hbefore) hfull
    · exact ⟨st, hst⟩
  · have hshown := (hstores st hst).shows.spins
    rw [if_pos hset] at hshown
    obtain ⟨-, -, -, -, hall⟩ :=
      (Session.run_new hspins entropy requests hbinary).1.spins_fit st.spins hshown
    exact hall
  · rcases Memory.answer_agrees hF (hstores st hst) r with ⟨-, hfull⟩ | ⟨st', hst', -⟩
    · exact absurd hroom hfull
    · exact ⟨st', hst'⟩
  · obtain ⟨model, hready⟩ := (hstores st hst).isReady hprepared
    constructor
    · intro g kt
      obtain ⟨s', hs', -⟩ := hready.annealOneStep g kt
      obtain ⟨st', hst', -⟩ := Memory.annealOneStep_ok hF (hstores st hst) hs'
      exact ⟨st', congrArg Memory.settle (Memory.bind_eq hst')⟩
    · obtain ⟨s', hs'⟩ := hready.finAnneal
      obtain ⟨st', hst', -⟩ := Memory.finAnneal_ok hF (hstores st hst) hs'
      exact ⟨st', congrArg Memory.settle (Memory.bind_eq hst')⟩

end

/-- Both annealers, whatever is asked of them and in whatever order. -/
theorem annealers_never_fault {α : Type} [Scalar α] [Transcendental α] [LawfulSpins α]
    (entropy : Random.Generator) :
    (∀ requests : List (Request (denseFamily α) α),
      Upholds (denseLayout α) Bits.IsBinary AllSpins entropy requests) ∧
    ∀ requests : List (Request (bipartiteFamily α) α),
      Upholds (bipartiteLayout α) (fun x => x.x0.IsBinary ∧ x.x1.IsBinary)
        (fun q => AllSpins q.q0 ∧ AllSpins q.q1) entropy requests :=
  ⟨fun requests => upholds faithful_dense steady_allSpins_dense entropy requests,
    fun requests => upholds faithful_bipartite steady_allSpins_bipartite entropy requests⟩

/-- A dense problem of two variables, and a bipartite one of three, after one step. -/
theorem annealers_never_fault_of_one_step :
    letI : Transcendental ℚ := ⟨id, id, id, id⟩
    let requests : List (Request (denseFamily ℚ) ℚ) :=
      [.setProblem (.fill 2 2 1) .maximize, .setTrotters 2, .setX (.ofValues [1, 0]), .initAnneal,
        .annealOneStep 1 1]
    let requests' : List (Request (bipartiteFamily ℚ) ℚ) :=
      [.setProblem ⟨[0, 1], [1], .fill 1 2 1⟩ .minimize,
        .setX ⟨.ofValues [1, 0], .ofValues [1]⟩, .initAnneal, .annealOneStep 1 1]
    (∃ st, (Memory.new (.ofSeed 0)).run requests = .ok st ∧ st.prepared = true ∧
      st.Valid (denseLayout ℚ) ∧ AllSpins st.spins ∧
      ∃ st', st.answer .finAnneal = .ok (st', .ok none)) ∧
    ∃ st, (Memory.new (.ofSeed 0)).run requests' = .ok st ∧ st.prepared = true ∧
      st.Valid (bipartiteLayout ℚ) ∧ (AllSpins st.spins.q0 ∧ AllSpins st.spins.q1) ∧
      ∃ st', st.answer .finAnneal = .ok (st', .ok none) := by
  intro requests requests'
  let _ : Transcendental ℚ := ⟨id, id, id, id⟩
  have hbinary : ∀ x, .setX x ∈ requests → x.IsBinary := by
    rintro x hx
    obtain rfl : x = .ofValues [1, 0] := by simpa [requests] using hx
    exact Bits.isBinary_ofValues _
  have hbinary' : ∀ x, .setX x ∈ requests' → x.x0.IsBinary ∧ x.x1.IsBinary := by
    rintro x hx
    obtain rfl : x = ⟨.ofValues [1, 0], .ofValues [1]⟩ := by simpa [requests'] using hx
    exact ⟨Bits.isBinary_ofValues _, Bits.isBinary_ofValues _⟩
  obtain ⟨st, hst, hflags⟩ := Result.exists_of_map_eq_ok (c := (true, true))
    (f := fun st => (st.prepared, st.spinsSet)) (x := (Memory.new (.ofSeed 0)).run requests)
    (by decide +kernel)
  obtain ⟨st', hst', hflags'⟩ := Result.exists_of_map_eq_ok (c := (true, true))
    (f := fun st => (st.prepared, st.spinsSet)) (x := (Memory.new (.ofSeed 0)).run requests')
    (by decide +kernel)
  obtain ⟨hprepared, hset⟩ := Prod.mk.inj hflags
  obtain ⟨hprepared', hset'⟩ := Prod.mk.inj hflags'
  obtain ⟨hdense, hbipartite⟩ := @annealers_never_fault ℚ _ _ _ (.ofSeed 0)
  exact ⟨⟨st, hst, hprepared, (hdense requests).valid st hst,
      (hdense requests).spins st hst hbinary hset, ((hdense requests).prepared st hst hprepared).2⟩,
    st', hst', hprepared', (hbipartite requests').valid st' hst',
      (hbipartite requests').spins st' hst' hbinary' hset',
      ((hbipartite requests').prepared st' hst' hprepared').2⟩

/-- An assignment that is read from text may hold a value that is neither zero nor one, which is
stored as a spin of neither sign. -/
theorem stored_spin_of_seven :
    letI : Transcendental Float := ⟨id, id, id, id⟩
    let requests : List (Request (denseFamily Float) Float) :=
      [.setProblem (.fill 1 1 0.0) .minimize, .setX ⟨[7]⟩]
    Snapshot.ofText Snapshot.bits "[7]" = .ok ⟨[7]⟩ ∧
      ∃ st, (Memory.new (.ofSeed 0)).run requests = .ok st ∧ st.spinsSet = true ∧
        ¬ AllSpins st.spins := by
  intro requests
  let _ : Transcendental Float := ⟨id, id, id, id⟩
  obtain ⟨st, hst, hstored⟩ := Result.exists_of_map_eq_ok (c := (true, [(13.0 : Float).toBits]))
    (f := fun st => (st.spinsSet, st.spins.data.toList.map Float.toBits))
    (x := (Memory.new (.ofSeed 0)).run requests) (by decide +kernel)
  obtain ⟨hset, hdata⟩ := Prod.mk.inj hstored
  refine ⟨by decide +kernel, st, hst, hset, fun hall => ?_⟩
  obtain ⟨v, hv, hbits⟩ := List.mem_map.mp (hdata ▸ List.mem_singleton_self (13.0 : Float).toBits)
  rcases hall v (Array.mem_toList_iff.mp hv) with rfl | rfl <;> exact absurd hbits (by decide)

end Qubo.Anneal

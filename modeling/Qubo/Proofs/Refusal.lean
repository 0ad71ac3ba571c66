import Mathlib.Tactic
import Qubo.Proofs.Anneal.Store.Bipartite
import Qubo.Proofs.Anneal.Store.Dense
import Qubo.Proofs.Anneal.Store.Run
import Qubo.Proofs.Finite
import Qubo.Proofs.Search.Actions

/-! Requests that are refused change nothing, whatever solver they are made of and whatever it is
in the middle of: all that can be wrong is found out before the first field is written. -/
namespace Qubo

/-- An annealer of either family that refuses a request stores what it stored before, and so does
an exhaustive solver if the energies of the problem in force are finite. -/
theorem refused_requests_change_nothing {α : Type} [Scalar α] [Transcendental α]
    [LawfulEnergies α] [StaysInfinite α] :
    (∀ (entropy : Random.Generator) (requests : List (Anneal.Request (Anneal.denseFamily α) α)) st,
      (Anneal.Memory.new entropy).run requests = .ok st →
      ∀ r e st', Anneal.Memory.perform r st = .error (.refused e) st' → st' = st) ∧
    (∀ (entropy : Random.Generator)
      (requests : List (Anneal.Request (Anneal.bipartiteFamily α) α)) st,
      (Anneal.Memory.new entropy).run requests = .ok st →
      ∀ r e st', Anneal.Memory.perform r st = .error (.refused e) st' → st' = st) ∧
    (∀ requests : List (Search.Request (Search.denseFamily α) α),
      (∀ w d, Search.loaded requests = some (w, d) → (Problem.dense w).HasFiniteEnergies) →
      ∀ r e m', Search.Action.perform r (Search.Memory.after requests (.new 1024 0)) = .error e m' →
        m' = Search.Memory.after requests (.new 1024 0)) ∧
    ∀ requests : List (Search.Request (Search.bipartiteFamily α) α),
      (∀ p d, Search.loaded requests = some (p, d) → (Problem.bipartite p).HasFiniteEnergies) →
      ∀ r e m',
        Search.Action.perform r (Search.Memory.after requests (.new (256, 256) (0, 0))) =
          .error e m' →
        m' = Search.Memory.after requests (.new (256, 256) (0, 0)) := by
  refine ⟨?_, ?_, ?_, ?_⟩
  · intro entropy requests st hst r e st' h
    have hsound := (Anneal.Session.run_new Anneal.steady_true entropy requests
      fun _ _ => trivial).1
    exact Anneal.Memory.perform_keeps_of_refused Anneal.faithful_dense
      (Anneal.Memory.stores_of_run Anneal.faithful_dense entropy hst) hsound h
  · intro entropy requests st hst r e st' h
    have hsound := (Anneal.Session.run_new Anneal.steady_true entropy requests
      fun _ _ => trivial).1
    exact Anneal.Memory.perform_keeps_of_refused Anneal.faithful_bipartite
      (Anneal.Memory.stores_of_run Anneal.faithful_bipartite entropy hst) hsound h
  · intro requests hfinite r e m' h
    exact Search.Memory.keeps_of_refused ⟨1024, rfl⟩ (fun w d hl =>
      Search.hasBoundedEnergy_dense (hfinite w d hl) (Search.check_of_loaded hl) d) h
  · intro requests hfinite r e m' h
    exact Search.Memory.keeps_of_refused ⟨(256, 256), rfl⟩ (fun p d hl =>
      Search.hasBoundedEnergy_bipartite (hfinite p d hl) (Search.check_of_loaded hl) d) h

/-- A prepared dense annealer is asked for no slices at all, a prepared bipartite one to start from
an assignment whose second layer is too short, a dense search that is under way is given a matrix
that is not square, and a bipartite one is to run without a problem. -/
theorem refused_requests_change_nothing_of_prepared :
    letI : Transcendental ℚ := ⟨id, id, id, id⟩
    let prepared : List (Anneal.Request (Anneal.denseFamily ℚ) ℚ) :=
      [.setProblem (.fill 2 2 1) .maximize, .setTrotters 2, .initAnneal]
    let prepared' : List (Anneal.Request (Anneal.bipartiteFamily ℚ) ℚ) :=
      [.setProblem ⟨[0, 1], [1], .fill 1 2 1⟩ .minimize, .initAnneal]
    let begun : List (Search.Request (Search.denseFamily ℚ) ℚ) :=
      [.setProblem (.fill 2 2 1) .maximize, .initSearch, .searchRange (0, 3)]
    let idle : List (Search.Request (Search.bipartiteFamily ℚ) ℚ) := [.setTile (4, 4)]
    let tooShort : BitsPair := ⟨.ofValues [1, 0], .ofValues []⟩
    let wide : Matrix ℚ := .fill 1 2 0
    (∃ st e st', (Anneal.Memory.new (.ofSeed 0)).run prepared = .ok st ∧ st.prepared = true ∧
      Anneal.Memory.perform (.setTrotters 0) st = .error (.refused e) st' ∧ st' = st) ∧
    (∃ st e st', (Anneal.Memory.new (.ofSeed 0)).run prepared' = .ok st ∧ st.prepared = true ∧
      Anneal.Memory.perform (.setX (F := Anneal.bipartiteFamily ℚ) tooShort) st =
        .error (.refused e) st' ∧ st' = st) ∧
    (∃ e m', Search.Action.perform (.setProblem (F := Search.denseFamily ℚ) wide .minimize)
      (Search.Memory.after begun (.new 1024 0)) = .error e m' ∧
        m' = Search.Memory.after begun (.new 1024 0)) ∧
    ∃ e m', Search.Action.perform (.solve .standard)
      (Search.Memory.after idle (.new (256, 256) (0, 0))) = .error e m' ∧
        m' = Search.Memory.after idle (.new (256, 256) (0, 0)) := by
  intro prepared prepared' begun idle tooShort wide
  let _ : Transcendental ℚ := ⟨id, id, id, id⟩
  obtain ⟨hdense, hbipartite, hsearch, hsearch'⟩ := refused_requests_change_nothing (α := ℚ)
  obtain ⟨st, hst, hprepared⟩ := Result.exists_of_map_eq_ok (c := true)
    (f := fun st => st.prepared) (x := (Anneal.Memory.new (.ofSeed 0)).run prepared)
    (by decide +kernel)
  obtain ⟨st', hst', hshown⟩ := Result.exists_of_map_eq_ok (c := (true, some (2, 1)))
    (f := fun st => (st.prepared, st.model.map Bipartite.Ising.size))
    (x := (Anneal.Memory.new (.ofSeed 0)).run prepared') (by decide +kernel)
  obtain ⟨hprepared', hsize⟩ := Prod.mk.inj hshown
  obtain ⟨model, hmodel, hsize⟩ := Option.map_eq_some_iff.mp hsize
  obtain ⟨h0, h1⟩ : model.h0.length = 2 ∧ model.h1.length = 1 := Prod.mk.inj hsize
  have hcheck : Anneal.Annealable.checkStart (F := Anneal.bipartiteFamily ℚ) model tooShort =
      .error (.shapeMismatch .start1 (1, 1) (1, 0)) := by
    simp [Anneal.Annealable.checkStart, h0, h1, tooShort]
  have hrefused : Anneal.Memory.perform (.setX (F := Anneal.bipartiteFamily ℚ) tooShort) st' =
      .error (.refused (.shapeMismatch .start1 (1, 1) (1, 0))) st' := by
    have hset : (Anneal.Memory.setX (F := Anneal.bipartiteFamily ℚ) tooShort) st' =
        .error (.refused (.shapeMismatch .start1 (1, 1) (1, 0))) st' := by
      refine (Anneal.Memory.bind_eq (Anneal.Memory.loaded_eq hmodel)).trans ?_
      refine Anneal.Memory.bind_eq_error ?_
      rw [hcheck]
      rfl
    exact Anneal.Memory.bind_eq_error hset
  have hfinite (p : Problem ℚ) : p.HasFiniteEnergies := fun _ _ _ => Scalar.isFinite_rat _
  refine ⟨⟨st, _, _, hst, hprepared, rfl, ?_⟩, ⟨st', _, _, hst', hprepared', hrefused, ?_⟩,
    ⟨_, _, rfl, ?_⟩, ⟨_, _, rfl, ?_⟩⟩
  · exact hdense _ prepared st hst (.setTrotters 0) _ _ rfl
  · exact hbipartite _ prepared' st' hst' _ _ _ hrefused
  · exact hsearch begun (fun w _ _ => hfinite (.dense w)) (.setProblem wide .minimize) _ _ rfl
  · exact hsearch' idle (fun p _ _ => hfinite (.bipartite p)) (.solve .standard) _ _ rfl

end Qubo

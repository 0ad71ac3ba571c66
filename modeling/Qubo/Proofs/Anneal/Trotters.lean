import Mathlib.Tactic
import Qubo.Proofs.Anneal.Bipartite
import Qubo.Proofs.Anneal.Dense

/-! Where the number of slices comes from that a caller never chooses: the first request that needs
slices takes the default for the problem in force, and no problem that is loaded later changes it. -/
namespace Qubo.Anneal
open Session
variable {F : Family} {α : Type}

/-- The caller leaves the number of slices to the annealer. -/
def Request.LeavesTrotters : Request F α → Prop
  | .setTrotters _ => False
  | .solve schedule => schedule.trotters = none
  | _ => True

/-- A request that cannot be answered without slices. -/
def Request.NeedsTrotters : Request F α → Prop
  | .setX _ | .randomize | .initAnneal | .solve _ => True
  | _ => False

variable [Annealable F α]

theorem Request.load_of_needsTrotters {r : Request F α} (hr : r.NeedsTrotters)
    (inForce : Option (F.Problem × Direction)) : r.load inForce = inForce := by
  cases r with
  | setProblem p d => exact hr.elim
  | _ => rfl

/-- The problem in force was in force before, or has been loaded since. -/
theorem mem_of_foldl_load {inForce : Option (F.Problem × Direction)} {p : F.Problem}
    {d : Direction} (requests : List (Request F α))
    (h : requests.foldl Request.load inForce = some (p, d)) :
    inForce = some (p, d) ∨ .setProblem p d ∈ requests := by
  induction requests using List.reverseRecOn with
  | nil => exact Or.inl h
  | append_singleton rs r ih =>
    rw [List.foldl_append] at h
    change r.load (rs.foldl Request.load inForce) = some (p, d) at h
    have hkeeps (hrs : rs.foldl Request.load inForce = some (p, d)) :
        inForce = some (p, d) ∨ .setProblem p d ∈ rs ++ [r] := by
      rcases ih hrs with hbefore | hmem
      · exact Or.inl hbefore
      · exact Or.inr (List.mem_append_left _ hmem)
    cases r with
    | setProblem p' d' =>
      rw [Request.load] at h
      cases hmodel : Annealable.model p' with
      | error e =>
        rw [hmodel] at h
        exact hkeeps h
      | ok model =>
        rw [hmodel] at h
        obtain ⟨rfl, rfl⟩ := Prod.mk.inj (Option.some.inj h)
        exact Or.inr (by simp)
    | _ => exact hkeeps h

namespace Session
variable {s s' : Session F α}

/-- The number of slices after a request that needs one: what was chosen, or the default for the
model in force. -/
def SettlesTrotters (s s' : Session F α) : Prop :=
  ∃ model, s.model = some model ∧ s'.trotters =
    some (s.trotters.getD (defaultTrotters (Annealable.extent model).variableCount))

theorem trotters_drawSpins (s : Session F α) (model : F.Model) :
    (s.drawSpins model).trotters =
      some (s.trotters.getD (defaultTrotters (Annealable.extent model).variableCount)) :=
  trotters_ensureTrotters s model

theorem settles_setX {x : F.Solution} (h : s.setX x = .ok s') : SettlesTrotters s s' := by
  obtain ⟨model, hmodel, -, rfl⟩ := setX_eq_ok_iff.mp h
  exact ⟨model, hmodel, trotters_ensureTrotters s model⟩

theorem settles_randomize (h : s.randomize = .ok s') : SettlesTrotters s s' := by
  obtain ⟨model, hmodel, rfl⟩ := randomize_eq_ok_iff.mp h
  exact ⟨model, hmodel, trotters_drawSpins s model⟩

theorem settles_initAnneal (h : s.initAnneal = .ok s') : SettlesTrotters s s' := by
  obtain ⟨model, t, hmodel, rfl, rfl⟩ := initAnneal_eq_ok_iff.mp h
  have ht := trotters_ensureTrotters { s with rng := some s.generator } model
  refine ⟨model, hmodel, ?_⟩
  split_ifs with hspins
  · exact ht
  · exact (trotters_drawSpins _ model).trans (by rw [ht, Option.getD_some])

theorem trotters_annealOneStep {g kt : α} (h : s.annealOneStep g kt = .ok s') :
    s'.trotters = s.trotters := by
  obtain ⟨model, rng, q, -, -, -, -, rfl⟩ := annealOneStep_eq_ok_iff.mp h
  rfl

theorem trotters_finAnneal (h : s.finAnneal = .ok s') : s'.trotters = s.trotters := by
  obtain ⟨model, q, -, -, -, rfl⟩ := finAnneal_eq_ok_iff.mp h
  rfl

variable [Scalar α]

/-- A run settles the number of its slices after what its schedule asks for. -/
theorem exists_settles_of_anneal {schedule : Schedule α} (h : s.anneal schedule = .ok s') :
    ∃ t, s.adoptTrotters schedule.trotters = .ok t ∧ SettlesTrotters t s' := by
  obtain ⟨-, s₁, h₁, s₂, h₂, s₃, h₃, s₄, h₄, h₅⟩ := anneal_eq_ok_iff.mp h
  obtain ⟨model, hmodel, htrotters⟩ := settles_randomize h₂
  -- The number that the random spins were drawn for stays chosen to the end.
  obtain ⟨_, _, htrotters₃⟩ := settles_initAnneal h₃
  rw [htrotters, Option.getD_some] at htrotters₃
  have htrotters₄ : s₄.trotters = s₃.trotters :=
    Result.foldlM_keeps (I := fun t : Session F α => t.trotters = s₃.trotters)
      (fun t t' g ht hstep => (trotters_annealOneStep hstep).trans ht) rfl h₄
  exact ⟨s₁, h₁, model, hmodel, (trotters_finAnneal h₅).trans (htrotters₄.trans htrotters₃)⟩

theorem settles_anneal {schedule : Schedule α} (hnone : schedule.trotters = none)
    (h : s.anneal schedule = .ok s') : SettlesTrotters s s' := by
  obtain ⟨t, ht, hsettles⟩ := exists_settles_of_anneal h
  rw [hnone] at ht
  obtain rfl : s = t := Except.ok.inj ht
  exact hsettles

/-- Where none has been chosen before, the slices are those that the schedule asks for, or the
default. -/
theorem slices_anneal {schedule : Schedule α} (hfresh : s.trotters = none)
    (h : s.anneal schedule = .ok s') : ∃ model, s.model = some model ∧ s'.slices =
      schedule.trotters.getD (defaultTrotters (Annealable.extent model).variableCount) := by
  obtain ⟨t, ht, model, hmodel, htrotters⟩ := exists_settles_of_anneal h
  refine ⟨model, ?_⟩
  rw [slices, htrotters]
  cases hasked : schedule.trotters with
  | none =>
    rw [hasked] at ht
    obtain rfl : s = t := Except.ok.inj ht
    rw [hfresh]
    exact ⟨hmodel, rfl⟩
  | some count =>
    rw [hasked] at ht
    obtain ⟨-, -, rfl⟩ := setTrotters_eq_ok_iff.mp ht
    exact ⟨hmodel, rfl⟩

/-- A request that needs slices settles their number unless it fails. -/
theorem step_of_needsTrotters {r : Request F α} (hleaves : r.LeavesTrotters)
    (hneeds : r.NeedsTrotters) :
    ((s.step r).1 = s ∧ ∃ e, (s.step r).2 = .error e) ∨ SettlesTrotters s (s.step r).1 := by
  have hkeep {e : Except SolverError (Session F α)} (he : ∀ s', e = .ok s' → SettlesTrotters s s') :
      ((step.keep s e).1 = s ∧ ∃ e', (step.keep s e).2 = .error e') ∨
        SettlesTrotters s (step.keep s e).1 := by
    cases e with
    | error e => exact Or.inl ⟨rfl, e, rfl⟩
    | ok s' => exact Or.inr (he s' rfl)
  cases r with
  | setX x => exact hkeep fun s' => settles_setX
  | randomize => exact hkeep fun s' => settles_randomize
  | initAnneal => exact hkeep fun s' => settles_initAnneal
  | solve schedule =>
    simp only [step, solve]
    cases h : s.anneal schedule with
    | error e => exact Or.inl ⟨rfl, e, rfl⟩
    | ok s' => exact Or.inr (settles_anneal hleaves h)
  | _ => exact hneeds.elim

/-- No other request of a caller who never chooses changes the number of slices. -/
theorem trotters_step_of_not_needsTrotters {r : Request F α} (hleaves : r.LeavesTrotters)
    (hneeds : ¬ r.NeedsTrotters) : (s.step r).1.trotters = s.trotters := by
  have hkeep {e : Except SolverError (Session F α)}
      (he : ∀ s', e = .ok s' → s'.trotters = s.trotters) :
      (step.keep s e).1.trotters = s.trotters := by
    cases e with
    | error e => rfl
    | ok s' => exact he s' rfl
  cases r with
  | setProblem p d =>
    refine hkeep fun s' h => ?_
    obtain ⟨model, -, rfl⟩ := setProblem_eq_ok_iff.mp h
    rfl
  | seed value => rfl
  | annealOneStep g kt => exact hkeep fun s' => trotters_annealOneStep
  | finAnneal => exact hkeep fun s' => trotters_finAnneal
  | setTrotters count => exact hleaves.elim
  | _ => exact absurd trivial hneeds

theorem run_append (s : Session F α) (rs : List (Request F α)) (r : Request F α) :
    s.run (rs ++ [r]) = ((s.run rs).step r).1 :=
  List.foldl_append

/-- A number of slices that the caller never chose goes back to one request: the first that needed
slices, and it took the default for the model of that time. -/
theorem trotters_origin (entropy : Random.Generator) {m : ℕ} (requests : List (Request F α))
    (hleaves : ∀ r ∈ requests, r.LeavesTrotters)
    (hm : ((new entropy : Session F α).run requests).trotters = some m) :
    ∃ before first after model, requests = before ++ first :: after ∧ first.NeedsTrotters ∧
      ((new entropy : Session F α).run before).trotters = none ∧
      ((new entropy : Session F α).run before).model = some model ∧
      m = defaultTrotters (Annealable.extent model).variableCount := by
  induction requests using List.reverseRecOn with
  | nil => exact absurd hm (by simp [run, new])
  | append_singleton rs r ih =>
    have hrs (q : Request F α) (hq : q ∈ rs) : q.LeavesTrotters :=
      hleaves q (List.mem_append_left _ hq)
    have hr : r.LeavesTrotters := hleaves r (by simp)
    rw [run_append] at hm
    have hearlier (h : ((new entropy : Session F α).run rs).trotters = some m) :
        ∃ before first after model, rs ++ [r] = before ++ first :: after ∧ first.NeedsTrotters ∧
          ((new entropy : Session F α).run before).trotters = none ∧
          ((new entropy : Session F α).run before).model = some model ∧
          m = defaultTrotters (Annealable.extent model).variableCount := by
      obtain ⟨before, first, after, model, rfl, horigin⟩ := ih hrs h
      exact ⟨before, first, after ++ [r], model, by simp, horigin⟩
    by_cases hneeds : r.NeedsTrotters
    · rcases step_of_needsTrotters (s := (new entropy).run rs) hr hneeds with
        ⟨hsame, -⟩ | ⟨model, hmodel, htrotters⟩
      · rw [hsame] at hm
        exact hearlier hm
      · have heq := Option.some.inj (hm.symm.trans htrotters)
        cases hbefore : ((new entropy : Session F α).run rs).trotters with
        | none =>
          exact ⟨rs, r, [], model, rfl, hneeds, hbefore, hmodel, by simpa [hbefore] using heq⟩
        | some m' =>
          obtain rfl : m = m' := by simpa [hbefore] using heq
          exact hearlier hbefore
    · rw [trotters_step_of_not_needsTrotters hr hneeds] at hm
      exact hearlier hm

end Session

/-- The first request of a sequence that needs slices has settled their number `m`, on a quarter of
the variables of the problem then in force; that is a quarter of the variables of the problem now in
force unless one of another size has been loaded in between. -/
def SettledByFirstNeed [Scalar α] (size : F.Problem → ℕ) (entropy : Random.Generator)
    (requests : List (Request F α)) (m : ℕ) : Prop :=
  ∃ before needing after p d p' d', requests = before ++ needing :: after ∧
    needing.NeedsTrotters ∧ ((new entropy : Session F α).run before).trotters = none ∧
    loaded before = some (p, d) ∧ m = max (size p / 4) 1 ∧ loaded requests = some (p', d') ∧
    ((∀ q e, .setProblem q e ∈ after → size q = size p) → m = max (size p' / 4) 1)

theorem settledByFirstNeed [Scalar α] {size : F.Problem → ℕ}
    (hsize : ∀ p (model : F.Model) d, Annealable.model p = .ok model →
      (Annealable.extent (Annealable.signed model d)).variableCount = size p)
    (entropy : Random.Generator)
    {requests : List (Request F α)} {r : Request F α} {answer : Option (Outcome α)}
    (hleaves : ∀ q ∈ requests ++ [r], q.LeavesTrotters) (hneeds : r.NeedsTrotters)
    (hok : (((new entropy).run requests).step r).2 = .ok answer) :
    ∃ m, (((new entropy).run requests).step r).1.trotters = some m ∧
      SettledByFirstNeed size entropy (requests ++ [r]) m := by
  have hr : r.LeavesTrotters := hleaves r (by simp)
  rcases step_of_needsTrotters (s := (new entropy).run requests) hr hneeds with
    ⟨-, e, herror⟩ | ⟨model', hmodel', htrotters⟩
  · exact absurd (herror.symm.trans hok) (by simp)
  refine ⟨_, htrotters, ?_⟩
  rw [← run_append] at htrotters
  obtain ⟨before, needing, after, model, hsplit, hfirst, hnone, hmodel, hm⟩ :=
    trotters_origin entropy _ hleaves htrotters
  have hfollows (rs : List (Request F α)) := (run_new steady_true entropy rs fun _ _ => trivial).2
  obtain ⟨p, d, given, hp, hgiven, rfl, -⟩ := (hfollows before).exists_of_model hmodel
  obtain ⟨p', d', -, hp', -⟩ := (hfollows requests).exists_of_model hmodel'
  rw [hsize p given d hgiven] at hm
  have hlast : loaded (requests ++ [r]) = some (p', d') := by
    rw [loaded, List.foldl_append]
    exact (Request.load_of_needsTrotters hneeds _).trans hp'
  refine ⟨before, needing, after, p, d, p', d', hsplit, hfirst, hnone, hp, hm, hlast,
    fun hafter => ?_⟩
  have hsince : after.foldl Request.load (some (p, d)) = some (p', d') := by
    rw [hsplit, loaded, List.foldl_append, List.foldl_cons, Request.load_of_needsTrotters hfirst]
      at hlast
    exact hp ▸ hlast
  rcases mem_of_foldl_load after hsince with hsame | hmem
  · obtain ⟨rfl, rfl⟩ := Prod.mk.inj (Option.some.inj hsame)
    exact hm
  · rw [hafter p' d' hmem]
    exact hm

section
variable {α : Type} [Scalar α] [Transcendental α]

theorem variableCount_dense (w : Matrix α) (model : Dense.Ising α) (d : Direction)
    (h : Dense.ising w = .ok model) : (Annealable.extent (F := denseFamily α)
      (Annealable.signed (F := denseFamily α) model d)).variableCount = w.rows :=
  (model.size_signed d).trans (Dense.size_ising h)

theorem variableCount_bipartite (p : Bipartite.Coefficients α) (model : Bipartite.Ising α)
    (d : Direction) (h : p.ising = .ok model) : (Annealable.extent (F := bipartiteFamily α)
      (Annealable.signed (F := bipartiteFamily α) model d)).variableCount =
        p.b0.length + p.b1.length := by
  obtain ⟨h0, h1⟩ := Bipartite.Coefficients.length_h_ising h
  show (model.signed d).h0.length + (model.signed d).h1.length = _
  rw [Bipartite.Ising.length_h0_signed, Bipartite.Ising.length_h1_signed, h0, h1]

end

/-- For a caller who never chooses a number of slices, whatever is asked of either annealer: each
successful request that needs slices finds as many as the first such request has settled. -/
theorem trotters_settled_by_first_need {α : Type} [Scalar α] [Transcendental α]
    (entropy : Random.Generator) :
    (∀ (requests : List (Request (denseFamily α) α)) r answer,
      (∀ q ∈ requests ++ [r], q.LeavesTrotters) → r.NeedsTrotters →
      (((Session.new entropy).run requests).step r).2 = .ok answer →
      ∃ m, (((Session.new entropy).run requests).step r).1.trotters = some m ∧
        SettledByFirstNeed Matrix.rows entropy (requests ++ [r]) m) ∧
    (∀ (requests : List (Request (bipartiteFamily α) α)) r answer,
      (∀ q ∈ requests ++ [r], q.LeavesTrotters) → r.NeedsTrotters →
      (((Session.new entropy).run requests).step r).2 = .ok answer →
      ∃ m, (((Session.new entropy).run requests).step r).1.trotters = some m ∧
        SettledByFirstNeed (fun p : Bipartite.Coefficients α => p.b0.length + p.b1.length) entropy
          (requests ++ [r]) m) := by
  constructor
  · intro requests r answer hleaves hneeds hok
    exact settledByFirstNeed variableCount_dense entropy hleaves hneeds hok
  · intro requests r answer hleaves hneeds hok
    exact settledByFirstNeed variableCount_bipartite entropy hleaves hneeds hok

/-- Eight variables of one layer, and of two, settle on two slices. -/
theorem trotters_settled_by_first_need_of_eight :
    letI : Transcendental ℚ := ⟨id, id, id, id⟩
    let requests : List (Request (denseFamily ℚ) ℚ) := [.setProblem (Matrix.fill 8 8 0) .minimize]
    let r : Request (denseFamily ℚ) ℚ := .setX (Bits.zeros 8)
    let requests' : List (Request (bipartiteFamily ℚ) ℚ) :=
      [.setProblem ⟨[0, 0, 0, 0, 0, 0], [0, 0], Matrix.fill 2 6 0⟩ .maximize]
    let r' : Request (bipartiteFamily ℚ) ℚ := .setX ⟨Bits.zeros 6, Bits.zeros 2⟩
    (∀ q ∈ requests ++ [r], q.LeavesTrotters) ∧ r.NeedsTrotters ∧
    (∀ q ∈ requests' ++ [r'], q.LeavesTrotters) ∧ r'.NeedsTrotters ∧
    (((Session.new (.ofSeed 0)).run requests).step r).2 = .ok none ∧
    (((Session.new (.ofSeed 0)).run requests').step r').2 = .ok none ∧
    (∃ m, (((Session.new (.ofSeed 0)).run requests).step r).1.trotters = some m ∧
      SettledByFirstNeed Matrix.rows (.ofSeed 0) (requests ++ [r]) m) ∧
    ∃ m, (((Session.new (.ofSeed 0)).run requests').step r').1.trotters = some m ∧
      SettledByFirstNeed (fun p : Bipartite.Coefficients ℚ => p.b0.length + p.b1.length)
        (.ofSeed 0) (requests' ++ [r']) m := by
  intro requests r requests' r'
  let _ : Transcendental ℚ := ⟨id, id, id, id⟩
  have hleaves : ∀ q ∈ requests ++ [r], q.LeavesTrotters := by
    simp [requests, r, Request.LeavesTrotters]
  have hleaves' : ∀ q ∈ requests' ++ [r'], q.LeavesTrotters := by
    simp [requests', r', Request.LeavesTrotters]
  have hok : (((Session.new (.ofSeed 0)).run requests).step r).2 = .ok none := by decide +kernel
  have hok' : (((Session.new (.ofSeed 0)).run requests').step r').2 = .ok none := by
    decide +kernel
  have hsettled := @trotters_settled_by_first_need ℚ _ _ (.ofSeed 0)
  exact ⟨hleaves, trivial, hleaves', trivial, hok, hok',
    hsettled.1 _ _ _ hleaves trivial hok, hsettled.2 _ _ _ hleaves' trivial hok'⟩

/-- Eight variables settle on two slices, which four variables loaded later are left with. -/
theorem trotters_of_smaller_problem :
    letI : Transcendental ℚ := ⟨id, id, id, id⟩
    let requests : List (Request (denseFamily ℚ) ℚ) :=
      [.setProblem (Matrix.fill 8 8 0) .minimize, .setX (Bits.zeros 8),
        .setProblem (Matrix.fill 4 4 0) .minimize]
    let r : Request (denseFamily ℚ) ℚ := .setX (Bits.zeros 4)
    let after := ((Session.new (.ofSeed 0)).run requests).step r
    (∀ q ∈ requests ++ [r], q.LeavesTrotters) ∧ r.NeedsTrotters ∧ after.2 = .ok none ∧
      (loaded (requests ++ [r])).map (fun l => l.1.rows) = some 4 ∧
      after.1.trotters = some 2 ∧ max (4 / 4) 1 ≠ 2 := by
  refine ⟨by simp [Request.LeavesTrotters], trivial, ?_⟩
  decide +kernel

end Qubo.Anneal

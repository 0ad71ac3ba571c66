import Mathlib.Tactic
import Qubo.Proofs.Outcome
import Qubo.Proofs.Result
import Qubo.Proofs.Search.Session

/-! Runs of exhaustive solvers: the problem in force is the one that was loaded last, and a complete
run depends on it, on the tile and on the cap alone, even in the middle of a search. -/
namespace Qubo.Search
variable {F : Family} {α : Type} [Enumerable F α]

/-- The problem in force after one more request: a problem that is refused changes nothing. -/
def Request.load (inForce : Option (F.Problem × Direction)) :
    Request F α → Option (F.Problem × Direction)
  | .setProblem p d =>
    match Enumerable.check p with
    | .ok _ => some (p, d)
    | .error _ => inForce
  | _ => inForce

/-- The last problem that a sequence of requests has loaded, with its direction. -/
def loaded (requests : List (Request F α)) : Option (F.Problem × Direction) :=
  requests.foldl Request.load none

theorem loaded_setProblem {p : F.Problem} (h : Enumerable.check p = .ok ()) (d : Direction)
    (before : List (Request F α)) : loaded (before ++ [.setProblem p d]) = some (p, d) := by
  rw [loaded, List.foldl_append, List.foldl_cons, List.foldl_nil, Request.load, h]

/-- The tile in force after one more request. -/
def Request.tileAfter (tile : F.Tile) : Request F α → F.Tile
  | .setTile tile' => Enumerable.widen tile'
  | _ => tile

/-- The cap in force after one more request. -/
def Request.capAfter (cap : ℕ) : Request F α → ℕ
  | .setCap cap' => max cap' 1
  | _ => cap

/-- The cap that a sequence of requests to a new solver leaves in force. -/
def capInForce (requests : List (Request F α)) : ℕ := requests.foldl Request.capAfter defaultCap

/-- A problem is in force only if it has been accepted. -/
theorem check_of_loaded {requests : List (Request F α)} {p : F.Problem} {d : Direction}
    (h : loaded requests = some (p, d)) : Enumerable.check p = .ok () := by
  induction requests using List.reverseRecOn with
  | nil => cases h
  | append_singleton rs r ih =>
    have hload : loaded (rs ++ [r]) = r.load (loaded rs) := by
      rw [loaded, List.foldl_append, List.foldl_cons, List.foldl_nil, loaded]
    rw [hload] at h
    cases r with
    | setProblem p' d' =>
      rw [Request.load] at h
      cases hcheck : Enumerable.check p' with
      | error e =>
        rw [hcheck] at h
        exact ih h
      | ok u =>
        rw [hcheck] at h
        cases h
        exact hcheck
    | _ => exact ih h

/-- Searches of a problem, in tiles of any size, meet an energy below every upper bound. -/
def HasBoundedEnergy [Scalar α] (p : F.Problem) : Prop :=
  ∀ tile, ∃ c ∈ visited p (Enumerable.widen tile), Scalar.isBounded c.2 = true

namespace Session

/-- The session holds the problem in force, signed by its direction. -/
def Follows : Option (F.Problem × Direction) → Session F α → Prop
  | none, s => s.problem = none
  | some (p, d), s => s.problem = some (Enumerable.signed p d) ∧ s.direction = d

variable {inForce : Option (F.Problem × Direction)} {s s' : Session F α}

theorem Follows.of_eq (h : Follows inForce s) (hproblem : s'.problem = s.problem)
    (hdirection : s'.direction = s.direction) : Follows inForce s' := by
  cases inForce with
  | none => exact hproblem.trans h
  | some l => exact ⟨hproblem.trans h.1, hdirection.trans h.2⟩

theorem follows_initSearch (h : Follows inForce s) (hs : s.initSearch = .ok s') :
    Follows inForce s' := by
  unfold initSearch at hs
  split at hs
  · cases hs
  · obtain rfl := Except.ok.inj hs
    exact h.of_eq rfl rfl

variable [Scalar α]

theorem follows_searchRange (h : Follows inForce s) {region : F.Region}
    (hs : s.searchRange region = .ok s') : Follows inForce s' := by
  unfold searchRange at hs
  split at hs
  · cases hs
  · cases hs
  · obtain rfl := Except.ok.inj hs
    exact h.of_eq rfl rfl

theorem follows_finSearch (h : Follows inForce s) (hs : s.finSearch = .ok s') :
    Follows inForce s' := by
  unfold finSearch at hs
  split at hs
  · cases hs
  · cases hs
  · obtain rfl := Except.ok.inj hs
    exact h.of_eq rfl rfl

theorem follows_search (h : Follows inForce s) (hs : s.search = .ok s') : Follows inForce s' := by
  obtain ⟨s₁, h₁, hs⟩ := Result.bind_eq_ok_iff.mp hs
  obtain ⟨s₂, h₂, hs⟩ := Result.bind_eq_ok_iff.mp hs
  apply follows_finSearch _ hs
  exact Result.foldlM_keeps (fun _ _ _ ht => follows_searchRange ht) (follows_initSearch h h₁) h₂

/-- One request leaves the session with the problem that it leaves in force. -/
theorem Follows.step (h : Follows inForce s) (r : Request F α) :
    Follows (r.load inForce) (s.step r).1 := by
  have hkeep {e : Except SolverError (Session F α)} (he : ∀ s', e = .ok s' → Follows inForce s') :
      Follows inForce (step.keep s e).1 := by
    cases e with
    | error => exact h
    | ok s' => exact he s' rfl
  cases r with
  | setProblem p d =>
    show Follows (Request.load inForce (.setProblem p d)) (step.keep s (s.setProblem p d)).1
    rw [Request.load, setProblem]
    cases Enumerable.check p with
    | error e => exact h
    | ok u => exact ⟨rfl, rfl⟩
  | setTile tile => exact h.of_eq rfl rfl
  | setCap cap => exact h.of_eq rfl rfl
  | initSearch => exact hkeep fun s' => follows_initSearch h
  | searchRange region => exact hkeep fun s' => follows_searchRange h
  | finSearch => exact hkeep fun s' => follows_finSearch h
  | search => exact hkeep fun s' => follows_search h
  | seed value => exact h
  | solve schedule =>
    show Follows inForce s.solve.solver
    unfold solve
    cases hs : s.search with
    | error e => exact h
    | ok s' => exact follows_search h hs

theorem Follows.run (h : Follows inForce s) (requests : List (Request F α)) :
    Follows (requests.foldl Request.load inForce) (s.run requests) := by
  induction requests generalizing inForce s with
  | nil => exact h
  | cons r rs ih => exact ih (h.step r)

theorem follows_run_new (tile : F.Tile) (requests : List (Request F α)) :
    Follows (loaded requests) ((new tile : Session F α).run requests) :=
  Follows.run (show Follows none (new tile) from rfl) requests

/-- The state of a search that has been closed, and what was searched. -/
theorem search_eq_ok {p : F.Problem} (hp : s.problem = some p) :
    let t := Tally.empty.offerAll s.cap (visited p s.tile)
    s.search = .ok { s with
      tally := none
      energies := t.least.elim [] fun e => List.replicate t.ties.size (s.direction.sign e)
      solutions := t.ties.toList.map (Enumerable.solution p) } :=
  (search_eq hp).trans (finSearch_eq hp rfl)

theorem exists_solve_of_search {found : Session F α} (hfound : s.search = .ok found)
    (hne : found.candidates ≠ []) : ∃ outcome, s.solve.result = .ok outcome := by
  obtain ⟨outcome, houtcome, -⟩ := Outcome.exists_steps_of_collect found.direction hne 0
  refine ⟨outcome, ?_⟩
  rw [solve, hfound]
  exact houtcome

/-- A search that meets an energy below every upper bound has something to report. -/
theorem exists_solve_of_isBounded {p : F.Problem} (hp : s.problem = some p)
    (h : ∃ c ∈ visited p s.tile, Scalar.isBounded c.2 = true) :
    ∃ outcome, s.solve.result = .ok outcome := by
  obtain ⟨least, hleast, hsize⟩ : (Tally.empty.offerAll s.cap (visited p s.tile)).Keeps :=
    Tally.keeps_offerAll (Or.inl rfl) h
  apply exists_solve_of_search (search_eq_ok hp)
  intro hnil
  have hties : (Tally.empty.offerAll s.cap (visited p s.tile)).ties = #[] := by
    simpa [candidates, hleast] using congrArg List.length hnil
  exact absurd hsize (by simp [hties])

/-- No request but the one for it changes the tile or the cap. -/
theorem settings_step (r : Request F α) :
    (s.step r).1.tile = r.tileAfter s.tile ∧ (s.step r).1.cap = r.capAfter s.cap := by
  have hkeep {e : Except SolverError (Session F α)}
      (he : ∀ s', e = .ok s' → s'.tile = s.tile ∧ s'.cap = s.cap) :
      (step.keep s e).1.tile = s.tile ∧ (step.keep s e).1.cap = s.cap := by
    cases e with
    | error => exact ⟨rfl, rfl⟩
    | ok s' => exact he s' rfl
  have hsearch {s' : Session F α} (hs : s.search = .ok s') :
      s'.tile = s.tile ∧ s'.cap = s.cap := by
    obtain ⟨s₁, h₁, -⟩ := Result.bind_eq_ok_iff.mp hs
    cases hp : s.problem with
    | none => simp [initSearch, hp] at h₁
    | some p =>
      obtain rfl := Except.ok.inj ((search_eq_ok hp).symm.trans hs)
      exact ⟨rfl, rfl⟩
  cases r with
  | setTile tile => exact ⟨rfl, rfl⟩
  | setCap cap => exact ⟨rfl, rfl⟩
  | solve schedule =>
    show s.solve.solver.tile = s.tile ∧ s.solve.solver.cap = s.cap
    unfold solve
    cases hs : s.search with
    | error e => exact ⟨rfl, rfl⟩
    | ok s' => exact hsearch hs
  | seed value => exact ⟨rfl, rfl⟩
  | search => exact hkeep fun s' => hsearch
  | setProblem p d =>
    refine hkeep fun s' hs => ?_
    obtain ⟨-, -, hs⟩ := Result.bind_eq_ok_iff.mp hs
    obtain rfl := Except.ok.inj hs
    exact ⟨rfl, rfl⟩
  | initSearch =>
    refine hkeep fun s' hs => ?_
    unfold initSearch at hs
    split at hs <;> cases hs
    exact ⟨rfl, rfl⟩
  | searchRange region =>
    refine hkeep fun s' hs => ?_
    unfold searchRange at hs
    split at hs <;> cases hs
    exact ⟨rfl, rfl⟩
  | finSearch =>
    refine hkeep fun s' hs => ?_
    unfold finSearch at hs
    split at hs <;> cases hs
    exact ⟨rfl, rfl⟩

/-- A request leaves the tile as it is or widens another one. -/
theorem tile_step (r : Request F α) :
    (s.step r).1.tile = s.tile ∨ ∃ tile, (s.step r).1.tile = Enumerable.widen tile := by
  have htile := (settings_step (s := s) r).1
  cases r with
  | setTile tile => exact Or.inr ⟨tile, htile⟩
  | _ => exact Or.inl htile

theorem cap_run (requests : List (Request F α)) :
    (s.run requests).cap = requests.foldl Request.capAfter s.cap := by
  induction requests generalizing s with
  | nil => rfl
  | cons r rs ih => exact ih.trans (by rw [(settings_step r).2, List.foldl_cons])

omit [Enumerable F α] [Scalar α] in
/-- Whatever is asked of a solver, it keeps room for at least one optimum. -/
theorem capInForce_pos (requests : List (Request F α)) : 0 < capInForce requests := by
  induction requests using List.reverseRecOn with
  | nil => exact Nat.succ_pos 1023
  | append_singleton rs r ih =>
    rw [capInForce, List.foldl_append, List.foldl_cons, List.foldl_nil]
    cases r with
    | setCap cap => exact lt_max_of_lt_right one_pos
    | _ => exact ih

/-- Tiles are never empty: the one in force has been widened. -/
theorem exists_tile_run (h : ∃ tile, s.tile = Enumerable.widen tile)
    (requests : List (Request F α)) : ∃ tile, (s.run requests).tile = Enumerable.widen tile := by
  induction requests generalizing s with
  | nil => exact h
  | cons r rs ih =>
    apply ih
    rcases tile_step (s := s) r with hsame | hwidened
    · exact hsame ▸ h
    · exact hwidened

/-- Two sessions with one problem, one tile and one cap end a complete run alike. -/
theorem solve_congr {p : F.Problem} (hp : s.problem = some p) (hp' : s'.problem = some p)
    (hdirection : s'.direction = s.direction) (htile : s'.tile = s.tile) (hcap : s'.cap = s.cap) :
    s'.solve = s.solve := by
  unfold solve
  rw [search_eq_ok hp, search_eq_ok hp']
  simp only [hp, hp', hdirection, htile, hcap]

end Session

end Qubo.Search

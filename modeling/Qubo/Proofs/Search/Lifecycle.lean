import Mathlib.Tactic
import Qubo.Proofs.Bipartite
import Qubo.Proofs.History
import Qubo.Proofs.Search.Actions

/-! When an exhaustive solver takes in regions: from the opening of a search up to its end, with the
bounds of the problem in force stored, below which lies whatever has been kept. -/
namespace Qubo.Search
variable {F : Family} {α : Type}

/-- What opens a search. -/
def Opens : Request F α × Except SolverError (Option (Outcome α)) → Prop
  | (.initSearch, .ok _) => True
  | _ => False

/-- What leaves no search open. -/
def Closes : Request F α × Except SolverError (Option (Outcome α)) → Prop
  | (.setProblem _ _, .ok _) => True
  | (.finSearch, .ok _) => True
  | (.search, .ok _) => True
  | (.solve _, .ok _) => True
  | _ => False

namespace Session
variable [Scalar α] [Enumerable F α] {s : Session F α}

/-- What one request does to a search that is open or not, if there is something to find. -/
theorem isOpen_step (hproblem : s.tally.isSome → s.problem.isSome)
    (hfound : ∀ p, s.problem = some p → ∃ c ∈ visited p s.tile, Scalar.isBounded c.2 = true)
    (r : Request F α) : (s.step r).1.tally.isSome ↔
      Opens (r, (s.step r).2) ∨ s.tally.isSome ∧ ¬ Closes (r, (s.step r).2) := by
  cases r with
  | setProblem p d =>
    simp only [step]
    cases hs : s.setProblem p d with
    | error e => simp [step.keep, Opens, Closes]
    | ok s' =>
      obtain ⟨-, -, hs⟩ := Result.bind_eq_ok_iff.mp hs
      obtain rfl := Except.ok.inj hs
      simp [step.keep, Opens, Closes]
  | setTile tile => simp [step, step.keep, setTile, Opens, Closes]
  | setCap cap => simp [step, step.keep, setCap, Opens, Closes]
  | initSearch => cases hp : s.problem <;> simp [step, initSearch, hp, step.keep, Opens, Closes]
  | searchRange region =>
    cases ht : s.tally with
    | none => simp [step, searchRange, ht, step.keep, Opens, Closes]
    | some t =>
      obtain ⟨p, hp⟩ := Option.isSome_iff_exists.mp (hproblem (by simp [ht]))
      simp [step, searchRange, ht, hp, step.keep, Opens, Closes]
  | finSearch =>
    cases ht : s.tally with
    | none => simp [step, finSearch, ht, step.keep, Opens, Closes]
    | some t =>
      obtain ⟨p, hp⟩ := Option.isSome_iff_exists.mp (hproblem (by simp [ht]))
      simp [step, finSearch, ht, hp, step.keep, Opens, Closes]
  | search =>
    cases hp : s.problem with
    | none => simp [step, search, initSearch, hp, step.keep, Opens, Closes, bind, Except.bind]
    | some p => simp [step, search_eq_ok hp, step.keep, Opens, Closes]
  | seed value => simp [step, step.keep, Opens, Closes]
  | solve schedule =>
    cases hp : s.problem with
    | none =>
      simp [step, solve, search, initSearch, hp, Opens, Closes, bind, Except.bind, Except.map]
    | some p =>
      obtain ⟨outcome, houtcome⟩ := exists_solve_of_isBounded hp (hfound p hp)
      have hclosed : s.solve.solver.tally = none := by rw [solve, search_eq_ok hp]
      simp [step, houtcome, hclosed, Opens, Closes, Except.map]

theorem answered_searchRange (hproblem : s.tally.isSome → s.problem.isSome) (region : F.Region) :
    AnsweredWhile (s.tally.isSome = true) .searchRange (s.step (.searchRange region)).2 := by
  apply answeredWhile
  · intro hopen
    obtain ⟨t, ht⟩ := Option.isSome_iff_exists.mp hopen
    obtain ⟨p, hp⟩ := Option.isSome_iff_exists.mp (hproblem hopen)
    exact ⟨none, by simp [step, searchRange, ht, hp, step.keep]⟩
  · intro hclosed
    simp [step, searchRange, Option.not_isSome_iff_eq_none.mp hclosed, step.keep]

theorem answered_finSearch (hproblem : s.tally.isSome → s.problem.isSome) :
    AnsweredWhile (s.tally.isSome = true) .finSearch (s.step .finSearch).2 := by
  apply answeredWhile
  · intro hopen
    obtain ⟨t, ht⟩ := Option.isSome_iff_exists.mp hopen
    obtain ⟨p, hp⟩ := Option.isSome_iff_exists.mp (hproblem hopen)
    exact ⟨none, by simp [step, finSearch, ht, hp, step.keep]⟩
  · intro hclosed
    simp [step, finSearch, Option.not_isSome_iff_eq_none.mp hclosed, step.keep]

/-- What every session of a run holds to whose problems have something to find. -/
structure Searchable [Storable F α] (s : Session F α) : Prop where
  stored : ∃ m : Memory F α, m.Valid ∧ m.view = s
  found : ∃ inForce, Follows inForce s ∧
    ∀ p d, inForce = some (p, d) → HasBoundedEnergy (Enumerable.signed p d)
  tile : ∃ tile, s.tile = Enumerable.widen tile

namespace Searchable
variable [Storable F α] (h : Searchable s)
include h

theorem problem (hopen : s.tally.isSome) : s.problem.isSome := by
  obtain ⟨m, hvalid, rfl⟩ := h.stored
  obtain ⟨p, hp, -⟩ := hvalid (by
    by_contra hsearching
    simp [Memory.view, hsearching] at hopen)
  exact Option.isSome_iff_exists.mpr ⟨p, hp⟩

theorem exists_isBounded {p : F.Problem} (hp : s.problem = some p) :
    ∃ c ∈ visited p s.tile, Scalar.isBounded c.2 = true := by
  obtain ⟨inForce, hfollows, hfound⟩ := h.found
  obtain ⟨tile, htile⟩ := h.tile
  rw [htile]
  match inForce, hfollows, hfound with
  | none, hnone, _ => exact nomatch hp.symm.trans hnone
  | some (given, d), ⟨hsigned, _⟩, hfound =>
    obtain rfl := Option.some.inj (hp.symm.trans hsigned)
    exact hfound given d rfl tile

theorem step [Bounded F α] {r : Request F α} (hr : ∀ p d, r = .setProblem p d →
    Enumerable.check p = .ok () → HasBoundedEnergy (Enumerable.signed p d)) :
    Searchable (s.step r).1 where
  stored := by
    obtain ⟨m, hvalid, rfl⟩ := h.stored
    obtain ⟨hview, hvalid'⟩ := Memory.view_step hvalid r
    exact ⟨m.step r, hvalid', hview⟩
  found := by
    obtain ⟨inForce, hfollows, hfound⟩ := h.found
    refine ⟨r.load inForce, hfollows.step r, ?_⟩
    intro p d hload
    cases r with
    | setProblem p' d' =>
      rw [Request.load] at hload
      cases hcheck : Enumerable.check p' with
      | error e =>
        rw [hcheck] at hload
        exact hfound p d hload
      | ok u =>
        rw [hcheck] at hload
        cases hload
        exact hr p d rfl hcheck
    | _ => exact hfound p d hload
  tile := by
    rcases tile_step (s := s) r with hsame | hwidened
    · exact hsame ▸ h.tile
    · exact hwidened

end Searchable

end Session

/-- After a sequence of requests a region is taken in, and a search is ended, just if the opening of
a search has been the last thing that mattered; storage has it flagged. -/
structure FollowsProtocol [Scalar α] [Enumerable F α] [Storable F α] (tile bound : F.Tile)
    (requests : List (Request F α)) : Prop where
  regions : ∀ region, AnsweredWhile
    (IsRaised Opens Closes (transcript Session.step (Session.new tile) requests))
    .searchRange (((Session.new tile).run requests).step (.searchRange region)).2
  ending : AnsweredWhile
    (IsRaised Opens Closes (transcript Session.step (Session.new tile) requests))
    .finSearch (((Session.new tile).run requests).step .finSearch).2
  flagged : (Memory.after requests (.new tile bound)).searching = true ↔
    IsRaised Opens Closes (transcript Session.step (Session.new tile) requests)

theorem followsProtocol [Scalar α] [Enumerable F α] [Storable F α] [Bounded F α] {tile : F.Tile}
    (htile : ∃ t, tile = Enumerable.widen t) (bound : F.Tile) {requests : List (Request F α)}
    (hfound : ∀ p d, .setProblem p d ∈ requests → Enumerable.check p = .ok () →
      HasBoundedEnergy (Enumerable.signed p d)) : FollowsProtocol tile bound requests := by
  have hvalid : (.new tile bound : Memory F α).Valid := Memory.valid_of_not_searching rfl
  have hnew : Session.Searchable (Session.new tile : Session F α) :=
    ⟨⟨.new tile bound, hvalid, rfl⟩,
      ⟨none, rfl, fun _ _ h => absurd h (Option.some_ne_none _).symm⟩, htile⟩
  obtain ⟨hsearchable, hopen⟩ := flag_iff_isRaised (Session.step (F := F) (α := α))
    (fun s => s.tally.isSome = true) Session.Searchable
    (fun r => ∀ p d, r = .setProblem p d → Enumerable.check p = .ok () →
      HasBoundedEnergy (Enumerable.signed p d)) Opens Closes (fun s r hs hr => hs.step hr)
    (fun s r hs _ => Session.isOpen_step hs.problem (fun p hp => hs.exists_isBounded hp) r)
    hnew Bool.false_ne_true (fun r (hr : r ∈ requests) p d hp => hfound p d (hp ▸ hr))
  refine ⟨fun region => ?_, ?_, ?_⟩
  · exact propext hopen ▸ Session.answered_searchRange hsearchable.problem region
  · exact propext hopen ▸ Session.answered_finSearch hsearchable.problem
  · rw [← hopen, Memory.after_eq_run hvalid]
    show _ ↔ ((Session.new tile).run requests).tally.isSome = true
    rw [← Memory.view_run_new tile bound requests]
    cases hsearching : ((Memory.new tile bound : Memory F α).run requests).searching <;>
      simp [Memory.view, hsearching]

namespace Memory
variable [Scalar α] [Enumerable F α] [Storable F α] {m : Memory F α}
  {below : F.Tile → F.Key → Prop}

/-- While a search is open, what it has kept lies below the bound that is stored. -/
def KeepsBelow (below : F.Tile → F.Key → Prop) (m : Memory F α) : Prop :=
  m.searching = true → ∀ key ∈ m.ties, below m.bound key

omit [Scalar α] [Enumerable F α] [Storable F α] in
theorem keepsBelow_of_not_searching (h : m.searching = false) : m.KeepsBelow below := by
  intro hsearching
  exact absurd (hsearching.symm.trans h) (by simp)

omit [Enumerable F α] in
theorem KeepsBelow.searchRange (hbelow : ∀ (p : F.Problem) bound region,
    ∀ c ∈ Storable.candidates p bound region, below bound c.1) (h : m.KeepsBelow below)
    {region : F.Region} {m' : Memory F α} (hm : m.searchRange region = .ok m') :
    m'.KeepsBelow below := by
  unfold Memory.searchRange at hm
  split at hm
  · cases hm
  next hsearching =>
  split at hm
  · cases hm
  next p hp =>
  obtain rfl := Except.ok.inj hm
  intro _ key hkey
  rcases Tally.mem_ties_offerAll hkey with hold | ⟨c, hc, rfl⟩
  · exact h (by simpa using hsearching) key hold
  · exact hbelow p m.bound region c hc

theorem KeepsBelow.step [Bounded F α] (hbelow : ∀ (p : F.Problem) bound region,
    ∀ c ∈ Storable.candidates p bound region, below bound c.1) (h : m.KeepsBelow below)
    (r : Request F α) : (m.step r).KeepsBelow below := by
  have hkeep {f : Except SolverError (Memory F α)} (hf : ∀ m', f = .ok m' → m'.KeepsBelow below) :
      (step.keep m f).KeepsBelow below := by
    cases f with
    | error e => exact h
    | ok m' => exact hf m' rfl
  have hsearch {m' : Memory F α} (hm : m.search = .ok m') : m'.KeepsBelow below := by
    obtain ⟨m₁, h₁, -⟩ := Result.bind_eq_ok_iff.mp hm
    cases hp : m.problem with
    | none => simp [initSearch, hp] at h₁
    | some p =>
      obtain rfl := Except.ok.inj ((search_eq_ok hp).symm.trans hm)
      exact keepsBelow_of_not_searching rfl
  cases r with
  | setProblem p d =>
    refine hkeep fun m' hm => ?_
    obtain ⟨-, -, hm⟩ := Result.bind_eq_ok_iff.mp hm
    obtain rfl := Except.ok.inj hm
    exact keepsBelow_of_not_searching rfl
  | setTile tile => exact h
  | setCap cap => exact h
  | initSearch =>
    refine hkeep fun m' hm => ?_
    unfold initSearch at hm
    split at hm <;> cases hm
    exact fun _ key hkey => by simp at hkey
  | searchRange region => exact hkeep fun m' => h.searchRange hbelow
  | finSearch =>
    refine hkeep fun m' hm => ?_
    unfold finSearch at hm
    split at hm
    · cases hm
    split at hm <;> cases hm
    exact keepsBelow_of_not_searching rfl
  | search => exact hkeep fun m' => hsearch
  | seed value => exact h
  | solve schedule =>
    show m.solve.1.KeepsBelow below
    unfold solve
    cases hs : m.search with
    | error e => exact h
    | ok m' => exact hsearch hs

theorem KeepsBelow.run [Bounded F α] (hbelow : ∀ (p : F.Problem) bound region,
    ∀ c ∈ Storable.candidates p bound region, below bound c.1) (h : m.KeepsBelow below)
    (requests : List (Request F α)) : (m.run requests).KeepsBelow below := by
  induction requests generalizing m with
  | nil => exact h
  | cons r rs ih => exact ih (h.step hbelow r)

/-- An open search of a run has the problem in force, whose bound is stored, and what it has kept
lies below that. -/
theorem exists_loaded_of_searching [Bounded F α] (below : F.Tile → F.Key → Prop)
    (hbelow : ∀ (p : F.Problem) bound region,
      ∀ c ∈ Storable.candidates p bound region, below bound c.1) {tile bound : F.Tile}
    {requests : List (Request F α)} (hopen : (after requests (new tile bound)).searching = true) :
    ∃ p d, loaded requests = some (p, d) ∧
      (after requests (new tile bound)).bound = Storable.bound (Enumerable.signed p d) ∧
      ∀ key ∈ (after requests (new tile bound)).ties,
        below (Storable.bound (Enumerable.signed p d)) key := by
  have hnew : (new tile bound : Memory F α).Valid := valid_of_not_searching rfl
  have hkeeps := (keepsBelow_of_not_searching (m := (new tile bound : Memory F α)) rfl).run
    hbelow requests
  have hfollows := Session.follows_run_new (α := α) tile requests
  rw [after_eq_run hnew] at hopen ⊢
  rw [← view_run_new tile bound requests] at hfollows
  obtain ⟨p, hp, hbound⟩ := (view_run hnew requests).2 hopen
  cases hl : loaded requests with
  | none =>
    rw [hl] at hfollows
    exact nomatch hp.symm.trans hfollows
  | some given =>
    rw [hl] at hfollows
    obtain rfl := Option.some.inj (hp.symm.trans hfollows.1)
    exact ⟨given.1, given.2, rfl, hbound, fun key hkey => hbound ▸ hkeeps hopen key hkey⟩

end Memory

section
variable [Scalar α]

theorem lt_of_mem_candidates_dense (w : Matrix α) (bound : ℕ) (region : ℕ × ℕ) :
    ∀ c ∈ Storable.candidates (F := denseFamily α) w bound region, c.1 < bound := by
  intro c hc
  obtain ⟨key, hkey, rfl⟩ := List.mem_map.mp hc
  have hspan := List.mem_range'_1.mp hkey
  have hmin := min_le_right region.2 bound
  dsimp only at hspan hmin ⊢
  omega

theorem bound_signed_dense (w : Matrix α) (d : Direction) :
    Storable.bound (F := denseFamily α) (Enumerable.signed (F := denseFamily α) w d) =
      2 ^ w.rows := by
  show Bits.count (d.sign w).rows = _
  rw [Bits.count_eq, w.rows_sign]

theorem bound_signed_bipartite (p : Bipartite.Coefficients α) (d : Direction) :
    Storable.bound (F := bipartiteFamily α) (Enumerable.signed (F := bipartiteFamily α) p d) =
      (2 ^ p.b0.length, 2 ^ p.b1.length) := by
  show (Bits.count (p.signed d).b0.length, Bits.count (p.signed d).b1.length) = _
  rw [Bits.count_eq, Bits.count_eq, p.length_b0_signed, p.length_b1_signed]

theorem lt_of_mem_candidates_bipartite (p : Bipartite.Coefficients α) (bound : ℕ × ℕ)
    (region : (ℕ × ℕ) × (ℕ × ℕ)) :
    ∀ c ∈ Storable.candidates (F := bipartiteFamily α) p bound region,
      c.1.1 < bound.1 ∧ c.1.2 < bound.2 := by
  intro c hc
  obtain ⟨key, hkey, hc⟩ := List.mem_flatMap.mp hc
  obtain ⟨second, hsecond, rfl⟩ := List.mem_map.mp hc
  obtain ⟨key', hkey', rfl⟩ := List.mem_map.mp hsecond
  have hspan := List.mem_range'_1.mp hkey
  have hspan' := List.mem_range'_1.mp hkey'
  have hmin := min_le_right region.1.2 bound.1
  have hmin' := min_le_right region.2.2 bound.2
  dsimp only at hspan hspan' hmin hmin' ⊢
  omega

end

end Qubo.Search

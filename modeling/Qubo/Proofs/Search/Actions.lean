import Mathlib.Tactic
import Qubo.Proofs.Search.Store

/-! An exhaustive solver at work on its storage: every field is written on its own, and a request
that is refused leaves what it has written by then. The answers are those of the session that is
stored, and the storage afterwards is that of the request as a whole. -/
namespace Qubo.Search

/-- A change of storage that may be refused half way, with what it has done by then. -/
abbrev Action (F : Family) (α β : Type) := EStateM SolverError (Memory F α) β

namespace Action
variable {F : Family} {α β : Type}

def refuse (x : Except SolverError β) : Action F α β :=
  match x with
  | .ok v => return v
  | .error e => throw e

/-- The problem that has been loaded. -/
def problem : Action F α F.Problem := do
  match (← get).problem with
  | none => refuse (.error .problemNotSet)
  | some p => return p

/-- Refuses an operation while no search is open. -/
def requireSearch (stage : SessionStep) : Action F α Unit := do
  if !(← get).searching then refuse (.error (.notInitialized stage))

section
variable [Scalar α]

/-- Takes in one candidate. -/
def offer (c : F.Key × α) : Action F α Unit :=
  modify fun m =>
    let t := Tally.offer m.cap ⟨m.least, m.ties⟩ c
    { m with least := t.least, ties := t.ties }

variable [Enumerable F α]

def setProblem (p : F.Problem) (d : Direction) : Action F α Unit := do
  refuse (Enumerable.check p)
  modify fun m => { m with direction := d }
  modify fun m => { m with problem := some (Enumerable.signed p d) }
  modify fun m => { m with searching := false }

def finSearch : Action F α Unit := do
  requireSearch .finSearch
  let p ← problem
  modify fun m => { m with solutions := m.ties.toList.map (Enumerable.solution p) }
  modify fun m => { m with
    energies := m.least.elim [] fun e => List.replicate m.ties.size (m.direction.sign e) }
  modify fun m => { m with searching := false }

variable [Storable F α]

def initSearch : Action F α Unit := do
  let p ← problem
  modify fun m => { m with bound := Storable.bound p }
  modify fun m => { m with least := none }
  modify fun m => { m with ties := #[] }
  modify fun m => { m with searching := true }

def searchRange (region : F.Region) : Action F α Unit := do
  requireSearch .searchRange
  let p ← problem
  (Storable.candidates p (← get).bound region).forM offer

def search : Action F α Unit := do
  initSearch
  let m ← get
  (Storable.regions m.bound m.tile).forM searchRange
  finSearch

/-- A complete run. -/
def solve : Action F α (Outcome α) := do
  search
  let m ← get
  refuse (Outcome.collect m.direction m.view.candidates 0)

def perform : Request F α → Action F α (Option (Outcome α))
  | .setProblem p d => do setProblem p d; return none
  | .setTile tile => do modify fun m => { m with tile := Enumerable.widen tile }; return none
  | .setCap cap => do modify fun m => { m with cap := max cap 1 }; return none
  | .initSearch => do initSearch; return none
  | .searchRange region => do searchRange region; return none
  | .finSearch => do finSearch; return none
  | .search => do search; return none
  | .seed _ => return none
  | .solve _ => return some (← solve)

end

/-- What is stored when an action stops. -/
def stored : EStateM.Result SolverError (Memory F α) β → Memory F α
  | .ok _ m => m
  | .error _ m => m

/-- What an action comes to that writes all or nothing. -/
def settled (m : Memory F α) :
    Except SolverError (Memory F α) → EStateM.Result SolverError (Memory F α) Unit
  | .ok m' => .ok () m'
  | .error e => .error e m

section
variable {m t : Memory F α} {γ : Type} {x : Action F α β} {f : β → Action F α γ} {v : β}

theorem bind_eq (hx : x m = .ok v t) : (x >>= f) m = f v t := by
  show EStateM.bind x f m = _
  rw [EStateM.bind, hx]

theorem bind_eq_error {e : SolverError} (hx : x m = .error e t) : (x >>= f) m = .error e t := by
  show EStateM.bind x f m = _
  rw [EStateM.bind, hx]

/-- A loop of actions that write all or nothing, if none of them is refused. -/
theorem forM_eq {x : β → Action F α Unit} {f : Memory F α → β → Except SolverError (Memory F α)}
    (hx : ∀ m b, x b m = settled m (f m b)) {bs : List β} (h : bs.foldlM f m = .ok t) :
    bs.forM x m = .ok () t := by
  induction bs generalizing m with
  | nil =>
    obtain rfl := Except.ok.inj h
    rfl
  | cons b bs ih =>
    rw [List.foldlM_cons] at h
    obtain ⟨m₁, hfirst, h⟩ := Result.bind_eq_ok_iff.mp h
    exact (bind_eq (by rw [hx, hfirst]; rfl)).trans (ih h)

end

section
variable [Scalar α] {m m' : Memory F α}

/-- Candidates that are taken in one by one add up to a tally. -/
theorem forM_offer (cs : List (F.Key × α)) :
    let t := Tally.offerAll m.cap ⟨m.least, m.ties⟩ cs
    cs.forM offer m = .ok () { m with least := t.least, ties := t.ties } := by
  induction cs generalizing m with
  | nil => rfl
  | cons c cs ih => exact (bind_eq rfl).trans ih

variable [Enumerable F α]

omit [Scalar α] in
theorem setProblem_eq (p : F.Problem) (d : Direction) :
    setProblem p d m = settled m (m.setProblem p d) := by
  unfold setProblem Memory.setProblem
  cases h : Enumerable.check p with
  | error e => rfl
  | ok u => rfl

theorem finSearch_eq : finSearch m = settled m m.finSearch := by
  obtain ⟨_, problem, _, _, _, _, _, searching, _, _⟩ := m
  cases searching with
  | false => rfl
  | true => cases problem <;> rfl

variable [Storable F α]

omit [Scalar α] [Enumerable F α] in
theorem initSearch_eq : initSearch m = settled m m.initSearch := by
  obtain ⟨_, problem, _, _, _, _, _, _, _, _⟩ := m
  cases problem <;> rfl

omit [Enumerable F α] in
theorem searchRange_eq (region : F.Region) :
    searchRange region m = settled m (m.searchRange region) := by
  obtain ⟨_, problem, _, _, _, _, _, searching, _, _⟩ := m
  cases searching with
  | false => rfl
  | true => cases problem with
    | none => rfl
    | some p => exact forM_offer (m := ⟨_, some p, _, _, _, _, _, true, _, _⟩) _

variable [Bounded F α]

/-- A search that is opened runs to its end, so that it is refused for want of a problem only. -/
theorem search_eq : search m = settled m m.search := by
  cases hp : m.problem with
  | none =>
    have hinit : (initSearch : Action F α Unit) m = .error .problemNotSet m := by
      rw [initSearch_eq, Memory.initSearch, hp]
      rfl
    have hsearch : m.search = .error .problemNotSet := by
      rw [Memory.search, Memory.initSearch, hp]
      rfl
    rw [hsearch]
    exact bind_eq_error hinit
  | some p =>
    have hsearch := Memory.search_eq_ok (α := α) hp
    rw [hsearch]
    obtain ⟨m₁, hinit, hrest⟩ := Result.bind_eq_ok_iff.mp hsearch
    obtain ⟨m₂, hrange, hfin⟩ := Result.bind_eq_ok_iff.mp hrest
    refine (bind_eq (v := ()) (t := m₁) (by rw [initSearch_eq, hinit]; rfl)).trans ?_
    refine (bind_eq (forM_eq (fun m region => searchRange_eq region) hrange)).trans ?_
    rw [finSearch_eq, hfin]
    rfl

theorem solve_eq : solve m = match m.solve.2 with
    | .ok outcome => .ok outcome m.solve.1
    | .error e => .error e m.solve.1 := by
  unfold solve Memory.solve
  cases hs : m.search with
  | error e => exact bind_eq_error (by rw [search_eq, hs]; rfl)
  | ok m' =>
    refine (bind_eq (v := ()) (t := m') (by rw [search_eq, hs]; rfl)).trans ?_
    show refuse (Outcome.collect m'.direction m'.view.candidates 0) m' =
      match Outcome.collect m'.direction m'.view.candidates 0 with
      | .ok outcome => .ok outcome m'
      | .error e => .error e m'
    cases Outcome.collect m'.direction m'.view.candidates 0 <;> rfl

/-- Whatever is asked of it, storage answers as the session does, and is left as by the request as
a whole. -/
theorem perform_eq (hm : m.Valid) (r : Request F α) :
    perform r m = match (m.view.step r).2 with
      | .ok v => .ok v (m.step r)
      | .error e => .error e (m.step r) := by
  have hkeep {x : Action F α Unit} {f : Except SolverError (Memory F α)}
      {g : Except SolverError (Session F α)} (hx : x m = settled m f)
      (hfg : Memory.Performs f g) : (do x; return none : Action F α (Option (Outcome α))) m =
        match (Session.step.keep m.view g).2 with
        | .ok v => .ok v (Memory.step.keep m f)
        | .error e => .error e (Memory.step.keep m f) := by
    obtain ⟨rfl, -⟩ := hfg
    cases f with
    | error e => exact bind_eq_error hx
    | ok m' => exact bind_eq hx
  cases r with
  | setProblem p d => exact hkeep (setProblem_eq p d) (Memory.setProblem_performs p d)
  | setTile tile => rfl
  | setCap cap => rfl
  | initSearch => exact hkeep initSearch_eq Memory.initSearch_performs
  | searchRange region => exact hkeep (searchRange_eq region) (Memory.searchRange_performs hm region)
  | finSearch => exact hkeep finSearch_eq (Memory.finSearch_performs hm)
  | search => exact hkeep search_eq Memory.search_performs
  | seed value => rfl
  | solve schedule =>
    have hanswer : (m.view.step (.solve schedule)).2 = m.solve.2.map some :=
      congrArg (Except.map some) Memory.view_solve.2.symm
    have hsolve := solve_eq (m := m)
    rw [hanswer]
    show (solve >>= fun outcome => return some outcome) m = _
    cases houtcome : m.solve.2 with
    | error e =>
      rw [houtcome] at hsolve
      exact bind_eq_error hsolve
    | ok outcome =>
      rw [houtcome] at hsolve
      exact bind_eq hsolve

/-- What is refused has changed nothing, if a search has something to find. -/
theorem perform_keeps_of_refused (hm : m.Valid)
    (hfound : ∀ p, m.problem = some p → ∃ c ∈ visited p m.tile, Scalar.isBounded c.2 = true)
    {r : Request F α} {e : SolverError} (h : perform r m = .error e m') : m' = m := by
  have hstate : m' = m.step r ∧ (m.view.step r).2 = .error e := by
    have hperform := perform_eq hm r
    cases hanswer : (m.view.step r).2 with
    | ok answer =>
      rw [hanswer] at hperform
      cases hperform.symm.trans h
    | error refusal =>
      rw [hanswer] at hperform
      cases hperform.symm.trans h
      exact ⟨rfl, rfl⟩
  obtain ⟨rfl, he⟩ := hstate
  have hkeep {f : Except SolverError (Memory F α)} {g : Except SolverError (Session F α)}
      (hfg : Memory.Performs f g) (hg : (Session.step.keep m.view g).2 = .error e) :
      Memory.step.keep m f = m := by
    obtain ⟨rfl, -⟩ := hfg
    cases f with
    | error e => rfl
    | ok m' => cases hg
  cases r with
  | setProblem p d => exact hkeep (Memory.setProblem_performs p d) he
  | setTile tile => cases he
  | setCap cap => cases he
  | initSearch => exact hkeep Memory.initSearch_performs he
  | searchRange region => exact hkeep (Memory.searchRange_performs hm region) he
  | finSearch => exact hkeep (Memory.finSearch_performs hm) he
  | search => exact hkeep Memory.search_performs he
  | seed value => rfl
  | solve schedule =>
    show m.solve.1 = m
    cases hp : m.problem with
    | none =>
      have hsearch : m.search = .error .problemNotSet := by
        rw [Memory.search, Memory.initSearch, hp]
        rfl
      rw [Memory.solve, hsearch]
    | some p =>
      obtain ⟨outcome, houtcome⟩ :=
        Session.exists_solve_of_isBounded (s := m.view) hp (hfound p hp)
      have hanswer : (m.view.step (.solve schedule)).2 = .ok (some outcome) :=
        congrArg (Except.map some) houtcome
      cases hanswer.symm.trans he

end

end Action

namespace Memory
variable {F : Family} {α : Type} [Scalar α] [Enumerable F α] [Storable F α]

/-- What is stored after requests that are performed one after the other, refused or not. -/
def after (requests : List (Request F α)) (m : Memory F α) : Memory F α :=
  requests.foldl (fun m r => Action.stored (Action.perform r m)) m

variable [Bounded F α] {m m' : Memory F α}

theorem stored_perform (hm : m.Valid) (r : Request F α) :
    Action.stored (Action.perform r m) = m.step r := by
  rw [Action.perform_eq hm]
  cases (m.view.step r).2 <;> rfl

theorem after_eq_run (hm : m.Valid) (requests : List (Request F α)) :
    after requests m = m.run requests := by
  induction requests generalizing m with
  | nil => rfl
  | cons r rs ih =>
    show after rs (Action.stored (Action.perform r m)) = (m.step r).run rs
    rw [stored_perform hm, ih (view_step hm r).2]

/-- After any requests that leave a problem in force with something to find, what is refused changes
nothing. -/
theorem keeps_of_refused {tile bound : F.Tile} (htile : ∃ t, tile = Enumerable.widen t)
    {requests : List (Request F α)} (hfound : ∀ p d, loaded requests = some (p, d) →
      HasBoundedEnergy (Enumerable.signed p d)) {r : Request F α} {e : SolverError}
    (h : Action.perform r (after requests (new tile bound)) = .error e m') :
    m' = after requests (new tile bound) := by
  have hnew : (new tile bound : Memory F α).Valid := valid_of_not_searching rfl
  rw [after_eq_run hnew] at h ⊢
  obtain ⟨hview, hvalid⟩ := view_run hnew requests
  have hfollows := Session.follows_run_new (α := α) tile requests
  have htile' : ∃ t, ((new tile bound).run requests).tile = Enumerable.widen t := by
    have := Session.exists_tile_run (s := (Session.new tile : Session F α)) htile requests
    rwa [← view_run_new tile bound requests] at this
  rw [← view_run_new tile bound requests] at hfollows
  refine Action.perform_keeps_of_refused hvalid (fun p hp => ?_) h
  obtain ⟨t, ht⟩ := htile'
  rw [ht]
  cases hl : loaded requests with
  | none =>
    rw [hl] at hfollows
    exact nomatch hp.symm.trans hfollows
  | some given =>
    rw [hl] at hfollows
    obtain rfl := Option.some.inj (hp.symm.trans hfollows.1)
    exact hfound given.1 given.2 hl t

end Memory

end Qubo.Search

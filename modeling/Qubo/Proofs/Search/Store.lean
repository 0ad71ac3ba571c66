import Mathlib.Tactic
import Qubo.Search.Bipartite
import Qubo.Proofs.Search.Run

/-! An exhaustive solver in storage. The bounds of the space, the least energy and the ties have
fixed places, where they stay behind when a search is closed or given up; a flag tells whether they
count. What is stored is the session. -/
namespace Qubo.Search

/-- A graph family in storage: searches are bounded by stored words, one for each layer. -/
class Storable (F : Family) (α : outParam Type) where
  bound : F.Problem → F.Tile
  /-- Regions of the size of a tile below a bound. -/
  regions : F.Tile → F.Tile → List F.Region
  /-- The assignments of a region below a bound, with their energies. -/
  candidates : F.Problem → F.Tile → F.Region → List (F.Key × α)

/-- What an exhaustive solver stores. -/
structure Memory (F : Family) (α : Type) where
  direction : Direction
  problem : Option F.Problem
  tile : F.Tile
  cap : ℕ
  bound : F.Tile
  least : Option α
  ties : Array F.Key
  searching : Bool
  energies : List α
  solutions : List F.Solution

/-- A stored bound does for the size of the problem. -/
class Bounded (F : Family) (α : outParam Type) [Enumerable F α] [Storable F α] : Prop where
  regions : ∀ (p : F.Problem) (tile : F.Tile),
    Storable.regions (Storable.bound p) tile = Enumerable.regions p tile
  candidates : ∀ (p : F.Problem) (region : F.Region),
    Storable.candidates p (Storable.bound p) region = Enumerable.candidates p region

namespace Memory
variable {F : Family} {α : Type}

/-- A solver without a problem. -/
def new (tile bound : F.Tile) : Memory F α where
  direction := .minimize
  problem := none
  tile := tile
  cap := defaultCap
  bound := bound
  least := none
  ties := #[]
  searching := false
  energies := []
  solutions := []

/-- The session that storage shows. -/
def view (m : Memory F α) : Session F α where
  direction := m.direction
  problem := m.problem
  tile := m.tile
  cap := m.cap
  tally := if m.searching then some ⟨m.least, m.ties⟩ else none
  energies := m.energies
  solutions := m.solutions

section
variable [Storable F α] (m : Memory F α)

def initSearch : Except SolverError (Memory F α) :=
  match m.problem with
  | none => .error .problemNotSet
  | some p =>
    .ok { m with bound := Storable.bound p, least := none, ties := #[], searching := true }

/-- An open search has a problem, whose bound is stored. -/
def Valid : Prop :=
  m.searching = true → ∃ p, m.problem = some p ∧ m.bound = Storable.bound p

/-- An action does to storage what a request does to the session that is stored. -/
def Performs (x : Except SolverError (Memory F α)) (f : Except SolverError (Session F α)) : Prop :=
  f = x.map view ∧ ∀ m', x = .ok m' → m'.Valid

variable {m}

theorem valid_of_not_searching (h : m.searching = false) : m.Valid := by
  intro hsearching
  exact absurd (hsearching.symm.trans h) (by simp)

theorem performs_error (e : SolverError) : Performs (F := F) (α := α) (.error e) (.error e) :=
  ⟨rfl, fun _ h => nomatch h⟩

theorem performs_ok {s : Session F α} (hview : s = m.view) (hvalid : m.Valid) :
    Performs (.ok m) (.ok s) := by
  refine ⟨congrArg Except.ok hview, fun m' h => ?_⟩
  obtain rfl := Except.ok.inj h
  exact hvalid

theorem initSearch_performs : Performs m.initSearch m.view.initSearch := by
  have hview : m.view.problem = m.problem := rfl
  unfold initSearch Session.initSearch
  rw [hview]
  cases m.problem with
  | none => exact performs_error _
  | some p => exact performs_ok rfl fun _ => ⟨p, rfl, rfl⟩

end

section
variable [Enumerable F α] (m : Memory F α)

def setProblem (p : F.Problem) (d : Direction) : Except SolverError (Memory F α) := do
  Enumerable.check p
  return { m with direction := d, problem := some (Enumerable.signed p d), searching := false }

variable [Scalar α]

def finSearch : Except SolverError (Memory F α) :=
  if !m.searching then .error (.notInitialized .finSearch)
  else match m.problem with
    | none => .error .problemNotSet
    | some p =>
      .ok { m with
        energies := m.least.elim [] fun e => List.replicate m.ties.size (m.direction.sign e)
        solutions := m.ties.toList.map (Enumerable.solution p)
        searching := false }

variable [Storable F α]

def searchRange (region : F.Region) : Except SolverError (Memory F α) :=
  if !m.searching then .error (.notInitialized .searchRange)
  else match m.problem with
    | none => .error .problemNotSet
    | some p =>
      let t := Tally.offerAll m.cap ⟨m.least, m.ties⟩ (Storable.candidates p m.bound region)
      .ok { m with least := t.least, ties := t.ties }

def search : Except SolverError (Memory F α) := do
  let m ← m.initSearch
  let m ← (Storable.regions m.bound m.tile).foldlM (fun m region => m.searchRange region) m
  m.finSearch

/-- A complete run, with its answer. -/
def solve : Memory F α × Except SolverError (Outcome α) :=
  match m.search with
  | .error e => (m, .error e)
  | .ok m' => (m', Outcome.collect m'.direction m'.view.candidates 0)

def step : Request F α → Memory F α
  | .setProblem p d => keep (m.setProblem p d)
  | .setTile tile => { m with tile := Enumerable.widen tile }
  | .setCap cap => { m with cap := max cap 1 }
  | .initSearch => keep m.initSearch
  | .searchRange region => keep (m.searchRange region)
  | .finSearch => keep m.finSearch
  | .search => keep m.search
  | .seed _ => m
  | .solve _ => m.solve.1
where
  /-- What an action stores that succeeds; the others store nothing. -/
  keep : Except SolverError (Memory F α) → Memory F α
    | .error _ => m
    | .ok m' => m'

def run (requests : List (Request F α)) : Memory F α := requests.foldl (fun m r => m.step r) m

end

section
variable [Enumerable F α] [Storable F α] {m m' : Memory F α}

theorem setProblem_performs (p : F.Problem) (d : Direction) :
    Performs (m.setProblem p d) (m.view.setProblem p d) := by
  unfold setProblem Session.setProblem
  cases Enumerable.check p with
  | error e => exact performs_error e
  | ok u => exact performs_ok rfl (valid_of_not_searching rfl)

variable [Scalar α]

theorem finSearch_performs (hm : m.Valid) : Performs m.finSearch m.view.finSearch := by
  unfold finSearch Session.finSearch
  cases hsearching : m.searching with
  | false =>
    have htally : m.view.tally = none := by simp [view, hsearching]
    rw [htally]
    exact performs_error _
  | true =>
    obtain ⟨p, hp, -⟩ := hm hsearching
    have htally : m.view.tally = some ⟨m.least, m.ties⟩ := by simp [view, hsearching]
    have hview : m.view.problem = some p := hp
    simp only [htally, hp, hview]
    exact performs_ok rfl (valid_of_not_searching rfl)

variable [Bounded F α]

theorem searchRange_performs (hm : m.Valid) (region : F.Region) :
    Performs (m.searchRange region) (m.view.searchRange region) := by
  unfold searchRange Session.searchRange
  cases hsearching : m.searching with
  | false =>
    have htally : m.view.tally = none := by simp [view, hsearching]
    rw [htally]
    exact performs_error _
  | true =>
    obtain ⟨p, hp, hbound⟩ := hm hsearching
    have htally : m.view.tally = some ⟨m.least, m.ties⟩ := by simp [view, hsearching]
    have hview : m.view.problem = some p := hp
    simp only [htally, hp, hview, hbound, Bounded.candidates]
    apply performs_ok
    · simp [view, hp, hsearching]
    · exact fun _ => ⟨p, rfl, rfl⟩

theorem foldlM_searchRange {p : F.Problem} (hp : m.problem = some p)
    (hsearching : m.searching = true) (hbound : m.bound = Storable.bound p)
    (regions : List F.Region) :
    let t := Tally.offerAll m.cap ⟨m.least, m.ties⟩ (regions.flatMap (Enumerable.candidates p))
    regions.foldlM (fun m region => m.searchRange region) m =
      .ok { m with least := t.least, ties := t.ties } := by
  induction regions generalizing m with
  | nil => rfl
  | cons region regions ih =>
    let t := Tally.offerAll m.cap ⟨m.least, m.ties⟩ (Enumerable.candidates p region)
    have hrange : m.searchRange region = .ok { m with least := t.least, ties := t.ties } := by
      simp only [searchRange, hsearching, hp, hbound, Bounded.candidates]
      rfl
    rw [List.foldlM_cons, hrange, List.flatMap_cons, Tally.offerAll_append]
    exact ih hp hsearching hbound

/-- A search leaves the tally of all it visits, whatever was stored before. -/
theorem search_eq_ok {p : F.Problem} (hp : m.problem = some p) :
    let t := Tally.empty.offerAll m.cap (visited p m.tile)
    m.search = .ok { m with
      bound := Storable.bound p
      least := t.least
      ties := t.ties
      searching := false
      energies := t.least.elim [] fun e => List.replicate t.ties.size (m.direction.sign e)
      solutions := t.ties.toList.map (Enumerable.solution p) } := by
  intro t
  have hinit : m.initSearch = .ok { m with
      bound := Storable.bound p, least := none, ties := #[], searching := true } := by
    simp only [initSearch, hp]
  have hrun := foldlM_searchRange (m := { m with
    bound := Storable.bound p, least := none, ties := #[], searching := true }) hp rfl rfl
    (Enumerable.regions p m.tile)
  rw [search, hinit]
  show (Storable.regions (Storable.bound p) m.tile).foldlM _ _ >>=
    (fun m : Memory F α => m.finSearch) = _
  rw [Bounded.regions, hrun]
  simp only [bind, Except.bind, finSearch, hp]
  rfl

theorem search_performs : Performs m.search m.view.search := by
  cases hp : m.problem with
  | none =>
    have hview : m.view.problem = none := hp
    simp only [search, initSearch, Session.search, Session.initSearch, hp, hview]
    exact performs_error _
  | some p =>
    rw [search_eq_ok hp, Session.search_eq_ok (s := m.view) hp]
    exact performs_ok rfl (valid_of_not_searching rfl)

/-- Two solvers that store one problem, one tile and one cap store the same after a complete run. -/
theorem solve_congr {p : F.Problem} (hp : m.problem = some p) (hp' : m'.problem = some p)
    (hdirection : m'.direction = m.direction) (htile : m'.tile = m.tile)
    (hcap : m'.cap = m.cap) : m'.solve = m.solve := by
  unfold solve
  rw [search_eq_ok hp, search_eq_ok hp']
  simp only [hp, hp', hdirection, htile, hcap]

theorem view_solve : m.solve.1.view = m.view.solve.solver ∧ m.solve.2 = m.view.solve.result := by
  obtain ⟨hsearch, -⟩ := search_performs (m := m)
  unfold solve Session.solve
  rw [hsearch]
  cases m.search with
  | error e => exact ⟨rfl, rfl⟩
  | ok m' => exact ⟨rfl, rfl⟩

/-- Storage goes from session to session as the requests do. -/
theorem view_step (hm : m.Valid) (r : Request F α) :
    (m.step r).view = (m.view.step r).1 ∧ (m.step r).Valid := by
  have hkeep {x : Except SolverError (Memory F α)} {f : Except SolverError (Session F α)}
      (h : Performs x f) : (step.keep m x).view = (Session.step.keep m.view f).1 ∧
        (step.keep m x).Valid := by
    obtain ⟨rfl, hvalid⟩ := h
    cases x with
    | error e => exact ⟨rfl, hm⟩
    | ok m' => exact ⟨rfl, hvalid m' rfl⟩
  cases r with
  | setProblem p d => exact hkeep (setProblem_performs p d)
  | setTile tile => exact ⟨rfl, hm⟩
  | setCap cap => exact ⟨rfl, hm⟩
  | initSearch => exact hkeep initSearch_performs
  | searchRange region => exact hkeep (searchRange_performs hm region)
  | finSearch => exact hkeep (finSearch_performs hm)
  | search => exact hkeep search_performs
  | seed value => exact ⟨rfl, hm⟩
  | solve schedule =>
    refine ⟨view_solve.1, ?_⟩
    show m.solve.1.Valid
    unfold solve
    cases hs : m.search with
    | error e => exact hm
    | ok m' => exact search_performs.2 m' hs

theorem view_run (hm : m.Valid) (requests : List (Request F α)) :
    (m.run requests).view = m.view.run requests ∧ (m.run requests).Valid := by
  induction requests generalizing m with
  | nil => exact ⟨rfl, hm⟩
  | cons r rs ih =>
    obtain ⟨hview, hvalid⟩ := view_step hm r
    have hrun := ih hvalid
    rw [hview] at hrun
    exact hrun

theorem view_run_new (tile bound : F.Tile) (requests : List (Request F α)) :
    ((new tile bound).run requests).view = (Session.new tile : Session F α).run requests :=
  (view_run (m := new tile bound) (valid_of_not_searching rfl) requests).1

end

end Memory

section
variable {α : Type} [Scalar α]

/-- The number of packed words, and the tiles and candidates below a number of them. -/
instance : Storable (denseFamily α) α where
  bound w := Bits.count w.rows
  regions := tiles
  candidates w bound region := (span (region.1, min region.2 bound)).map fun key =>
    (key, Dense.quadratic w (Bits.ofPacked key w.rows).reals)

instance : Bounded (denseFamily α) α where
  regions _ _ := rfl
  candidates _ _ := rfl

/-- The numbers of packed words of either layer. -/
instance : Storable (bipartiteFamily α) α where
  bound p := (Bits.count p.b0.length, Bits.count p.b1.length)
  regions bound tile := rectangles bound.1 bound.2 tile
  candidates p bound region :=
    let second := (span (region.2.1, min region.2.2 bound.2)).map fun key =>
      (key, (Bits.ofPacked key p.b1.length).reals)
    (span (region.1.1, min region.1.2 bound.1)).flatMap fun key0 =>
      let x0 := (Bits.ofPacked key0 p.b0.length).reals
      let e0 := Scalar.dot p.b0 x0
      let couplings := p.w.mulVec x0
      second.map fun (key1, x1) =>
        ((key0, key1), e0 + Scalar.dot p.b1 x1 + Scalar.dot x1 couplings)

instance : Bounded (bipartiteFamily α) α where
  regions _ _ := rfl
  candidates _ _ := rfl

end

end Qubo.Search

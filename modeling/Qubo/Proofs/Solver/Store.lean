import Mathlib.Tactic
import Qubo.Solver
import Qubo.Proofs.Anneal.Store
import Qubo.Proofs.Anneal.Trotters
import Qubo.Proofs.Search.Actions

/-! Solvers in storage, from their creation to what they report. The report is that of the sessions,
and nothing but want of room for the slices of an annealer keeps them from it. -/
namespace Qubo
open Checked (Fault)

/-- What a complete run answers, with what it leaves in the log. -/
abbrev Reported (α : Type) := Except SolverError (Outcome α) × List (SolverEvent α)

namespace Anneal
variable {F : Family} {α : Type} [Scalar α] [Annealable F α]

namespace Memory
variable [Storable F α]

/-- The event that ends a run. -/
def event (st : Memory F α) : SolverEvent α :=
  .annealed (st.model.elim (.dense 0) Annealable.extent) st.direction st.slices
    (st.direction.best? st.energies)

/-- A complete run. -/
def report (schedule : Schedule α) (st : Memory F α) : Except Fault (Reported α) := do
  let (st, counted) ← settle (anneal schedule st)
  match counted with
  | .error e => return (.error e, [])
  | .ok steps =>
    let result ← collectAt st.direction st.energies (st.solutions.map Annealable.assignment) steps
    return (result, [st.event])

variable {L : Layout F} {st : Memory F α} {s : Session F α}

omit [Storable F α] in
theorem event_eq (h : Stores L st s) {m : ℕ} (hm : s.trotters = some m) : st.event = s.event := by
  have hslices : s.slices = st.slices := h.slices (h.chosen hm).1
  rw [event, Session.event, h.shows.model, h.shows.direction, h.shows.energies, hslices]

theorem report_eq (hF : Faithful L) (h : Stores L st s) (schedule : Schedule α) :
    (st.report schedule = .error .capacity ∧ ¬ (s.solve schedule).solver.HasRoom L) ∨
      st.report schedule = .ok ((s.solve schedule).result, (s.solve schedule).events) := by
  unfold report Session.solve
  cases hs : s.anneal schedule with
  | error e =>
    rw [anneal_refused hF h hs]
    exact .inr rfl
  | ok s' =>
    rcases (anneal_ends hF h hs).exists with ⟨hfull, st', hst'⟩ | ⟨_, st', hst', rfl, h'⟩
    · rw [hst']
      exact .inl ⟨rfl, hfull⟩
    · obtain ⟨_, -, _, -, htrotters⟩ := Session.exists_settles_of_anneal hs
      rw [hst']
      simp only [settle, bind, Except.bind, collectAt_of_stores h', event_eq h' htrotters]
      exact .inr rfl

end Memory

/-- There is room for the slices of a run on a new problem: as many as are asked for, or else the
default number. -/
def Layout.Holds (L : Layout F) (p : F.Problem) (d : Direction) (schedule : Schedule α) : Prop :=
  ∀ model, Annealable.model p = .ok model → L.Room (Annealable.signed model d)
    (schedule.trotters.getD
      (defaultTrotters (Annealable.extent (Annealable.signed model d)).variableCount))

end Anneal

namespace Search.Action
variable {F : Family} {α : Type} [Scalar α] [Enumerable F α] [Storable F α]

/-- A complete run. -/
def report (m : Memory F α) : Reported α :=
  match search m with
  | .error e _ => (.error e, [])
  | .ok () m => (Outcome.collect m.direction m.view.candidates 0, [m.view.event])

variable [Bounded F α]

theorem report_eq (m : Memory F α) : report m = (m.view.solve.result, m.view.solve.events) := by
  obtain ⟨hsearch, -⟩ := Memory.search_performs (m := m)
  unfold report Session.solve
  rw [search_eq, hsearch]
  cases m.search with
  | error e => rfl
  | ok m' => rfl

end Search.Action

section
variable {α : Type} [Scalar α] [Transcendental α]

/-- There is room for a number of slices of a problem. -/
def Problem.HasSlices (m : ℕ) : Problem α → Prop
  | .dense w => m * w.rows < Matrix.capacity
  | .bipartite p => m * p.b0.length < Matrix.capacity ∧ m * p.b1.length < Matrix.capacity

end

end Qubo

import Mathlib.Tactic
import Qubo.SolverError

/-! Histories of a machine that answers requests, flags that some entries of a history raise and
others lower, and requests that are answered while such a flag is raised. -/
namespace Qubo
variable {σ ρ γ β : Type}

/-- The requests of a run, each with its answer. -/
def transcript (step : σ → ρ → σ × γ) : σ → List ρ → List (ρ × γ)
  | _, [] => []
  | s, r :: rs => (r, (step s r).2) :: transcript step (step s r).1 rs

/-- Something has raised, and nothing has lowered since. -/
def IsRaised (raises lowers : β → Prop) (history : List β) : Prop :=
  ∃ before e after, history = before ++ e :: after ∧ raises e ∧ ∀ c ∈ after, ¬ lowers c

section
variable {raises lowers : β → Prop}

theorem not_isRaised_nil : ¬ IsRaised raises lowers [] := by
  rintro ⟨before, e, after, h, -, -⟩
  exact absurd h (by simp)

/-- Only the last entry matters, or what stood before it. -/
theorem isRaised_concat {history : List β} {e : β} :
    IsRaised raises lowers (history ++ [e]) ↔
      raises e ∨ IsRaised raises lowers history ∧ ¬ lowers e := by
  constructor
  · rintro ⟨before, x, after, h, hx, hafter⟩
    cases after using List.reverseRecOn with
    | nil =>
      obtain ⟨-, hlast⟩ := List.append_inj' h rfl
      obtain rfl := List.singleton_inj.mp hlast
      exact Or.inl hx
    | append_singleton after c =>
      rw [← List.cons_append, ← List.append_assoc] at h
      obtain ⟨rfl, hc⟩ := List.append_inj' h rfl
      obtain rfl := List.singleton_inj.mp hc
      right
      constructor
      · exact ⟨before, x, after, rfl, hx, fun c hc => hafter c (List.mem_append_left _ hc)⟩
      · exact hafter e (by simp)
  · rintro (he | ⟨⟨before, x, after, rfl, hx, hafter⟩, he⟩)
    · exact ⟨history, e, [], rfl, he, by simp⟩
    · refine ⟨before, x, after ++ [e], by simp, hx, fun c hc => ?_⟩
      rcases List.mem_append.mp hc with hc | hc
      · exact hafter c hc
      · exact List.mem_singleton.mp hc ▸ he

end

section
variable (step : σ → ρ → σ × γ) (flag I : σ → Prop) (P : ρ → Prop) (raises lowers : ρ × γ → Prop)

/-- A flag that every request sets by what it raises or lowers tells of the whole run whether it is
raised. The invariant `I` is what the requests of a run rely on, those in `P` being admitted. -/
theorem flag_iff_isRaised (hI : ∀ s r, I s → P r → I (step s r).1)
    (hflag : ∀ s r, I s → P r → (flag (step s r).1 ↔
      raises (r, (step s r).2) ∨ flag s ∧ ¬ lowers (r, (step s r).2)))
    {s : σ} (hs : I s) (hlowered : ¬ flag s) {requests : List ρ} (hP : ∀ r ∈ requests, P r) :
    I (requests.foldl (fun s r => (step s r).1) s) ∧
      (flag (requests.foldl (fun s r => (step s r).1) s) ↔
        IsRaised raises lowers (transcript step s requests)) := by
  -- The induction carries along what stands in the history already.
  have hgeneral (history : List (ρ × γ)) (s : σ) (hs : I s)
      (hhistory : flag s ↔ IsRaised raises lowers history) :
      I (requests.foldl (fun s r => (step s r).1) s) ∧
        (flag (requests.foldl (fun s r => (step s r).1) s) ↔
          IsRaised raises lowers (history ++ transcript step s requests)) := by
    induction requests generalizing history s with
    | nil => simpa [transcript] using ⟨hs, hhistory⟩
    | cons r rs ih =>
      obtain ⟨hr, hrs⟩ := List.forall_mem_cons.mp hP
      have hnext := ih hrs (history ++ [(r, (step s r).2)]) (step s r).1 (hI s r hs hr) (by
        rw [hflag s r hs hr, isRaised_concat, hhistory])
      simpa [transcript] using hnext
  have hempty : flag s ↔ IsRaised raises lowers [] :=
    iff_of_false hlowered not_isRaised_nil
  simpa using hgeneral [] s hs hempty

end

/-- The answer to a request that needs something to be open: it is refused for want of that, and for
nothing else. -/
structure AnsweredWhile {β : Type} (isOpen : Prop) (stage : SessionStep)
    (answer : Except SolverError β) : Prop where
  answered : (∃ v, answer = .ok v) ↔ isOpen
  refused : ¬ isOpen → answer = .error (.notInitialized stage)

theorem answeredWhile {β : Type} {isOpen : Prop} {stage : SessionStep}
    {answer : Except SolverError β} (hopen : isOpen → ∃ v, answer = .ok v)
    (hclosed : ¬ isOpen → answer = .error (.notInitialized stage)) :
    AnsweredWhile isOpen stage answer where
  answered := by
    refine ⟨fun ⟨v, hv⟩ => ?_, hopen⟩
    by_contra h
    exact nomatch hv.symm.trans (hclosed h)
  refused := hclosed

end Qubo

import Mathlib.Tactic
import Qubo.Json.Snapshot
import Qubo.Proofs.Anneal.Bipartite
import Qubo.Proofs.Anneal.Dense

/-! What annealers report after any sequence of requests: one entry per slice, the signs that the
assignments have as spins, and over exact arithmetic their energies. -/
namespace Qubo

/-- `2x - 1` of every value. -/
def Bits.signs (x : Bits) : List ℤ := x.values.map fun v => 2 * (v.toNat : ℤ) - 1

def BitsPair.signs (x : BitsPair) : List ℤ × List ℤ := (x.x0.signs, x.x1.signs)

namespace Anneal
open Session

/-- A report on `m` slices, in which `signsOf` gives the signs of an assignment. -/
structure Reports {F : Family} {α : Type} (signsOf : F.Solution → F.Signs) (s : Session F α)
    (m : ℕ) : Prop where
  pos : 0 < m
  trotters_eq : s.trotters = some m
  length_energies : s.energies.length = m
  length_solutions : s.solutions.length = m
  length_signs : s.signs.length = m
  signs_eq : s.signs = s.solutions.map signsOf

section
variable {F : Family} {α : Type} [Scalar α] [Annealable F α] {signsOf : F.Solution → F.Signs}

/-- Every reachable session reports each slice of its spins. -/
theorem exists_reports (hsigns : ∀ (model : F.Model) d q k,
      (Annealable.read model d q k).signs = signsOf (Annealable.read model d q k).solution)
    (entropy : Random.Generator) (requests : List (Request F α)) {s' : Session F α}
    (h : ((new entropy).run requests).finAnneal = .ok s') : ∃ m, Reports signsOf s' m := by
  obtain ⟨hsound, hfollows⟩ := run_new steady_true entropy requests fun _ _ => trivial
  obtain ⟨p, d, model, m, q, -, -, -, htrotters, hpos, -, hreadings⟩ :=
    finAnneal_shows hsound hfollows h
  refine ⟨m, hpos, htrotters, ?_, ?_, ?_, ?_⟩
  · simp [energies, hreadings]
  · simp [solutions, hreadings]
  · simp [Session.signs, hreadings]
  · simp only [Session.signs, solutions, hreadings, List.map_map]
    exact List.map_congr_left fun k _ => hsigns _ _ _ _

omit [Scalar α] [Annealable F α] in
/-- The energies of a report, given that of each reading. -/
theorem energies_eq_of_readings {energy : F.Solution → Except SolverError α} {s' : Session F α}
    (h : ∀ r ∈ s'.readings, energy r.solution = .ok r.energy) :
    s'.solutions.map energy = s'.energies.map .ok := by
  simp only [energies, solutions, List.map_map]
  exact List.map_congr_left h

end

/-- After any requests that end in a read-out, an annealer reports one entry for each of at least
one slice, with the signs of its assignment as spins; and over exact arithmetic the energies of
the assignments, under the problem that was loaded last, if the caller's own assignments are of
zeros and ones. -/
theorem finAnneal_reports_energies (entropy : Random.Generator) :
    (∀ {α : Type} [Scalar α] [Transcendental α] (requests : List (Request (denseFamily α) α))
      (s' : DenseSession α),
      ((Session.new entropy).run requests).finAnneal = .ok s' → ∃ m, Reports Bits.signs s' m) ∧
    (∀ {α : Type} [Scalar α] [Transcendental α] (requests : List (Request (bipartiteFamily α) α))
      (s' : BipartiteSession α),
      ((Session.new entropy).run requests).finAnneal = .ok s' →
        ∃ m, Reports BitsPair.signs s' m) ∧
    (∀ [Transcendental ℚ] (requests : List (Request (denseFamily ℚ) ℚ)) (s' : DenseSession ℚ),
      (∀ x, .setX x ∈ requests → x.IsBinary) →
      ((Session.new entropy).run requests).finAnneal = .ok s' →
        ∃ w d, loaded requests = some (w, d) ∧
          (w.IsMirrored → s'.solutions.map (Dense.energy w) = s'.energies.map .ok)) ∧
    (∀ [Transcendental ℚ] (requests : List (Request (bipartiteFamily ℚ) ℚ))
      (s' : BipartiteSession ℚ),
      (∀ x, .setX x ∈ requests → x.x0.IsBinary ∧ x.x1.IsBinary) →
      ((Session.new entropy).run requests).finAnneal = .ok s' →
        ∃ p d, loaded requests = some (p, d) ∧
          s'.solutions.map p.energy = s'.energies.map .ok) := by
  refine ⟨?_, ?_, ?_, ?_⟩
  · intro α _ _ requests s' h
    exact exists_reports (fun _ _ _ _ => signs_eq _) entropy requests h
  · intro α _ _ requests s' h
    exact exists_reports (fun _ _ _ _ => Prod.ext (signs_eq _) (signs_eq _)) entropy requests h
  · intro _ requests s' hx h
    obtain ⟨hsound, hfollows⟩ :=
      run_new (steady_fitsDense.and steady_allSpins_dense) entropy requests hx
    obtain ⟨w, d, hl, -, -, henergy⟩ := energy_readings_dense hfollows hsound h
    exact ⟨w, d, hl, fun hw => energies_eq_of_readings fun r hr => (henergy hw r hr).2⟩
  · intro _ requests s' hx h
    obtain ⟨hsound, hfollows⟩ :=
      run_new (steady_fitsLayers.and steady_allSpins_bipartite) entropy requests hx
    obtain ⟨p, d, hl, -, -, henergy⟩ := energy_readings_bipartite hfollows hsound h
    exact ⟨p, d, hl, energies_eq_of_readings fun r hr => (henergy r hr).2⟩

/-- Three slices of either family, all started from an assignment of the caller. -/
theorem finAnneal_reports_energies_of_start :
    letI : Transcendental ℚ := ⟨id, id, id, id⟩
    let w := Matrix.generate 2 2 fun r c => if r = c then (1 : ℚ) else -2
    let p : Bipartite.Coefficients ℚ := ⟨[1, -1], [2], Matrix.generate 1 2 fun _ c => c - 2⟩
    let requests : List (Request (denseFamily ℚ) ℚ) :=
      [.setProblem w .maximize, .setTrotters 3, .setX ⟨[1, 0]⟩, .initAnneal]
    let requests' : List (Request (bipartiteFamily ℚ) ℚ) :=
      [.setProblem p .maximize, .setTrotters 3, .setX ⟨⟨[1, 0]⟩, ⟨[1]⟩⟩, .initAnneal]
    (∀ x, .setX x ∈ requests → x.IsBinary) ∧
    (∀ x, .setX x ∈ requests' → x.x0.IsBinary ∧ x.x1.IsBinary) ∧
    (∃ s', ((Session.new (.ofSeed 0)).run requests).finAnneal = .ok s' ∧
      (∃ m, Reports Bits.signs s' m) ∧ ∃ w' d, loaded requests = some (w', d) ∧
        (w'.IsMirrored → s'.solutions.map (Dense.energy w') = s'.energies.map .ok)) ∧
    ∃ s', ((Session.new (.ofSeed 0)).run requests').finAnneal = .ok s' ∧
      (∃ m, Reports BitsPair.signs s' m) ∧ ∃ p' d, loaded requests' = some (p', d) ∧
        s'.solutions.map p'.energy = s'.energies.map .ok := by
  intro w p requests requests'
  let _ : Transcendental ℚ := ⟨id, id, id, id⟩
  have hx : ∀ x, .setX x ∈ requests → x.IsBinary := by
    intro x hx
    obtain rfl : x = ⟨[1, 0]⟩ := by simpa [requests] using hx
    decide +kernel
  have hx' : ∀ x, .setX x ∈ requests' → x.x0.IsBinary ∧ x.x1.IsBinary := by
    intro x hx
    obtain rfl : x = ⟨⟨[1, 0]⟩, ⟨[1]⟩⟩ := by simpa [requests'] using hx
    decide +kernel
  obtain ⟨s₁, h₁⟩ : ∃ s', ((Session.new (.ofSeed 0)).run requests).finAnneal = .ok s' :=
    Result.exists_eq_ok (by decide +kernel)
  obtain ⟨s₂, h₂⟩ : ∃ s', ((Session.new (.ofSeed 0)).run requests').finAnneal = .ok s' :=
    Result.exists_eq_ok (by decide +kernel)
  obtain ⟨hreport, hreport', henergy, henergy'⟩ := finAnneal_reports_energies (.ofSeed 0)
  exact ⟨hx, hx', ⟨s₁, h₁, hreport _ _ h₁, henergy _ _ hx h₁⟩,
    s₂, h₂, hreport' _ _ h₂, henergy' _ _ hx' h₂⟩

/-- An assignment that is read from text may hold a value that is neither zero nor one. What is
reported then is the energy of its stored spin, and not that of the assignment that is reported. -/
theorem reported_energy_of_seven :
    letI : Transcendental ℚ := ⟨id, id, id, id⟩
    let w : Matrix ℚ := .fill 1 1 1
    let requests : List (Request (denseFamily ℚ) ℚ) :=
      [.setProblem w .minimize, .setX ⟨[7]⟩, .initAnneal]
    Snapshot.ofText Snapshot.bits "[7]" = .ok ⟨[7]⟩ ∧ w.IsMirrored ∧
      loaded requests = some (w, .minimize) ∧
      ∃ s', ((Session.new (.ofSeed 0)).run requests).finAnneal = .ok s' ∧
        s'.solutions = [⟨[1]⟩] ∧ s'.energies = [7] ∧ Dense.energy w ⟨[1]⟩ = .ok 1 := by
  intro w requests
  let _ : Transcendental ℚ := ⟨id, id, id, id⟩
  have hw : w.IsMirrored := by decide
  have hloaded : loaded requests = some (w, .minimize) := loaded_setProblem (F := denseFamily ℚ)
    (Dense.ising_eq_ok_iff.mpr ⟨Dense.check_of_isMirrored hw, rfl⟩) .minimize []
  obtain ⟨s', hs', hshown⟩ := Result.exists_of_map_eq_ok (c := ([⟨[1]⟩], [(7 : ℚ)]))
    (f := fun s' : DenseSession ℚ => (s'.solutions, s'.energies))
    (x := ((Session.new (.ofSeed 0)).run requests).finAnneal) (by decide +kernel)
  obtain ⟨hsolutions, henergies⟩ := Prod.mk.inj hshown
  exact ⟨by decide +kernel, hw, hloaded, s', hs', hsolutions, henergies, by decide +kernel⟩

end Anneal

end Qubo

import Mathlib.Tactic
import Qubo.Benchmark.Blueprint
import Qubo.Proofs.Anneal.Bipartite
import Qubo.Proofs.Anneal.Dense
import Qubo.Proofs.Schedule.Decay

/-! The schedules that configured solvers are run with, and how long they keep an annealer busy. -/
namespace Qubo.Benchmark

theorem validate_of_readSchedule {s : SolverSection} {schedule : Schedule Float}
    (h : Blueprint.readSchedule s = .ok schedule) : schedule.validate = .ok () := by
  unfold Blueprint.readSchedule at h
  split at h
  · split at h
    · cases h
    · obtain rfl := Except.ok.inj h
      exact Schedule.validate_standard
  · split at h
    · cases h
    · split at h
      · cases h
      next hv =>
        obtain rfl := Except.ok.inj h
        exact hv

/-- The schedule of every solver that is ready to be created has been accepted. -/
theorem validate_of_ofSections {sections : List SolverSection}
    {blueprints : List (Blueprint Float)} (h : Blueprint.ofSections sections = .ok blueprints) :
    ∀ b ∈ blueprints, b.schedule.validate = .ok () := by
  intro b hb
  obtain ⟨s, -, hs⟩ := Result.exists_mem_of_mapM_eq_ok h b hb
  obtain ⟨schedule, hschedule, hs⟩ := Result.bind_eq_ok_iff.mp hs
  obtain rfl := Except.ok.inj hs
  exact validate_of_readSchedule hschedule

/-- Every schedule of a solver that is ready to be created is an accepted one, and an accepted
schedule of machine floats ends unless rounding keeps a field above the end value where it is; it
does end if it starts below infinity and stops no lower than the least normal number. Then its
fields are the ones down to the end value, and an annealer that has been given a problem, whatever
else it has been asked, completes a run in one step for each of them. -/
theorem schedule_ends_unless_stalled {s : Schedule Float} (hv : s.validate = .ok ()) :
    (∀ sections blueprints, Blueprint.ofSections sections = .ok blueprints →
      ∀ b ∈ blueprints, b.schedule.validate = .ok ()) ∧
    (s.Ends ↔ ¬ s.Stalls) ∧
    (Scalar.isBounded s.gStart = true → ¬ s.gEnd < Schedule.leastNormal → s.Ends) ∧
    (s.Ends → ∃ n, s.EndsAfter n ∧ s.fields = (List.range n).map s.field ∧ s.stepCount = n ∧
      ∀ (F : Anneal.Family) [Anneal.Annealable F Float] (entropy : Random.Generator)
        (requests : List (Anneal.Request F Float)) p d, Anneal.loaded requests = some (p, d) →
        ∃ outcome, (((Anneal.Session.new entropy).run requests).solve s).result = .ok outcome ∧
          outcome.steps = n) := by
  refine ⟨fun _ _ => validate_of_ofSections, Schedule.ends_iff_not_stalls hv,
    Schedule.ends_of_normal hv, fun hends => ?_⟩
  obtain ⟨n, hn⟩ := hends.exists_endsAfter
  have hfields := Schedule.fields_eq_of_endsAfter hv hn
  have hcount : s.stepCount = n := by rw [Schedule.stepCount, hfields, List.length_map,
    List.length_range]
  refine ⟨n, hn, hfields, hcount, fun F _ entropy requests p d hl => ?_⟩
  obtain ⟨outcome, houtcome, hsteps⟩ := Anneal.Session.exists_solve_of_loaded entropy hl hv
  exact ⟨outcome, houtcome, hsteps.trans hcount⟩

/-- A solver with the standard schedule, on a problem of two variables. -/
theorem schedule_ends_unless_stalled_of_standard :
    letI : Transcendental Float := ⟨id, id, id, id⟩
    let s : Schedule Float := .standard
    let sections : List SolverSection := [⟨"annealed", .anneal, .null⟩]
    let requests : List (Anneal.Request (Anneal.denseFamily Float) Float) :=
      [.setProblem (.fill 2 2 1.0) .maximize]
    (∃ blueprints, Blueprint.ofSections sections = .ok blueprints ∧
      ∀ b ∈ blueprints, b.schedule.validate = .ok ()) ∧
    s.validate = .ok () ∧ Scalar.isBounded s.gStart = true ∧ ¬ s.gEnd < Schedule.leastNormal ∧
    s.Ends ∧ ¬ s.Stalls ∧ ∃ n p d, s.EndsAfter n ∧ s.stepCount = n ∧
      Anneal.loaded requests = some (p, d) ∧
      ∃ outcome, (((Anneal.Session.new (.ofSeed 0)).run requests).solve s).result = .ok outcome ∧
        outcome.steps = n := by
  intro s sections requests
  let _ : Transcendental Float := ⟨id, id, id, id⟩
  have hv : s.validate = .ok () := Schedule.validate_eq_ok_iff.mpr (by decide)
  have hbounded : Scalar.isBounded s.gStart = true := by decide
  have hnormal : ¬ s.gEnd < Schedule.leastNormal := by decide
  obtain ⟨hsections, hiff, hends, hsteps⟩ := schedule_ends_unless_stalled hv
  obtain ⟨n, hn, -, hcount, hsolve⟩ := hsteps (hends hbounded hnormal)
  obtain ⟨l, hl⟩ : ∃ l, Anneal.loaded requests = some l :=
    Option.isSome_iff_exists.mp (by decide +kernel)
  exact ⟨⟨_, rfl, hsections sections _ rfl⟩, hv, hbounded, hnormal, hends hbounded hnormal,
    hiff.mp (hends hbounded hnormal), n, l.1, l.2, hn, hcount, hl, hsolve _ _ _ _ _ hl⟩

/-- Infinity times any ratio is infinity, so that a schedule from there is accepted and never ends;
nor does one that cannot get from the second least number to the least. -/
theorem accepted_schedules_without_end :
    let s : Schedule Float := { (.standard : Schedule Float) with gStart := 1.0 / 0.0 }
    let t : Schedule Float :=
      { (.standard : Schedule Float) with gStart := .ofBits 2, gEnd := .ofBits 1, tau := 0.9 }
    (s.validate = .ok () ∧ ¬ s.Ends) ∧ t.validate = .ok () ∧ ¬ t.Ends := by
  intro s t
  have hs : s.validate = .ok () := Schedule.validate_eq_ok_iff.mpr (by decide)
  have ht : t.validate = .ok () := Schedule.validate_eq_ok_iff.mpr (by decide)
  exact ⟨⟨hs, Schedule.not_ends_of_gStart_fixed hs (by decide)⟩,
    ht, Schedule.not_ends_of_gStart_fixed ht (by decide)⟩

end Qubo.Benchmark

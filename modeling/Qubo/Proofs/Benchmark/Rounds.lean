import Mathlib.Tactic
import Qubo.Benchmark.Run
import Qubo.Proofs.Random.Draw

/-! The rounds of a benchmark by their numbers: which problem and which seeds a round has depends
neither on how many instances nor on how many trials there are. -/
namespace Qubo.Benchmark
variable {α : Type} [Scalar α] (p : ProblemSection)

/-- The instance that is drawn after `i` others. -/
def instanceAt (i : ℕ) : Problem α × UInt64 :=
  (drawInstance p ((fun g => (drawInstance (α := α) p g).2)^[i] (.ofSeed (p.seed.getD 0)))).1

def trialSeed (seed : UInt64) (j : ℕ) : UInt64 :=
  (Random.Draw.word ((fun g => (Random.Draw.word g).2)^[j] (.ofSeed seed))).1

def roundAt (i j : ℕ) : Round α where
  instanceIndex := i
  trialIndex := j
  instanceSeed := (instanceAt (α := α) p i).2
  solverSeed := trialSeed (instanceAt (α := α) p i).2 j
  problem := (instanceAt p i).1

theorem instances_eq : instances (α := α) p = (List.range p.instances).map (instanceAt p) := by
  rw [instances, Random.Draw.many_eq]
  rfl

theorem trialSeeds_eq (seed : UInt64) (n : ℕ) :
    Random.trialSeeds seed n = (List.range n).map (trialSeed seed) := by
  rw [Random.trialSeeds, Random.Draw.many_eq]
  rfl

theorem zipIdx_map_range {β : Type} (f : ℕ → β) (n : ℕ) :
    ((List.range n).map f).zipIdx = (List.range n).map fun i => (f i, i) := by
  apply List.ext_getElem
  · simp
  · intro i hi hi'
    simp

theorem rounds_eq : rounds (α := α) p =
    (List.range p.instances).flatMap fun i => (List.range p.trials).map (roundAt p i) := by
  rw [rounds, instances_eq, zipIdx_map_range, List.flatMap_map]
  apply List.flatMap_congr
  intro i _
  show instanceRounds p.trials i _ _ = _
  rw [instanceRounds, trialSeeds_eq, zipIdx_map_range, List.map_map]
  rfl

/-- With more instances the rounds go on as they were. -/
theorem rounds_prefix {n : ℕ} (h : p.instances ≤ n) :
    ∃ rest, rounds (α := α) { p with instances := n } = rounds p ++ rest := by
  obtain ⟨k, rfl⟩ := Nat.exists_eq_add_of_le h
  rw [rounds_eq, rounds_eq]
  show ∃ rest, (List.range (p.instances + k)).flatMap _ = _
  rw [List.range_add, List.flatMap_append]
  exact ⟨_, rfl⟩

theorem filter_range {k n : ℕ} (h : k ≤ n) :
    ((List.range n).filter fun j => j < k) = List.range k := by
  obtain ⟨d, rfl⟩ := Nat.exists_eq_add_of_le h
  have hkept : ((List.range k).filter fun j => j < k) = List.range k :=
    List.filter_eq_self.mpr fun j hj => by simpa using hj
  have hdropped : (((List.range d).map fun j => k + j).filter fun j => j < k) = [] :=
    List.filter_eq_nil_iff.mpr fun j hj => by
      obtain ⟨i, -, rfl⟩ := List.mem_map.mp hj
      simp
  rw [List.range_add, List.filter_append, hkept, hdropped, List.append_nil]

/-- With more trials the rounds are still there, in their order. -/
theorem filter_rounds {n : ℕ} (h : p.trials ≤ n) :
    ((rounds (α := α) { p with trials := n }).filter fun r => r.trialIndex < p.trials) =
      rounds p := by
  rw [rounds_eq, rounds_eq, List.filter_flatMap]
  apply List.flatMap_congr
  intro i _
  rw [List.filter_map]
  exact congrArg (List.map _) (filter_range h)

end Qubo.Benchmark

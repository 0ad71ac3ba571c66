import Mathlib.Tactic
import Mathlib.Data.List.ProdSigma
import Qubo.Proofs.Benchmark.Rounds
import Qubo.Proofs.Benchmark.Written

/-! Where the rows of a run stand: one for each instance, trial and solver, in the order of these,
and no two of one solver under the name of one trial. -/
namespace Qubo.Benchmark

section Names
variable {width n : ℕ}

theorem toList_padded : (padded width n).toList =
    List.replicate (width - (toString n).length) '0' ++ Nat.toDigits 10 n := by
  rw [padded, String.toList_append, String.toList_ofList, Nat.toString_eq_repr, Nat.toList_repr]

theorem isDigit_of_mem_padded {c : Char} (h : c ∈ (padded width n).toList) : c.isDigit = true := by
  rw [toList_padded] at h
  rcases List.mem_append.mp h with h | h
  · rw [List.eq_of_mem_replicate h]
    rfl
  · exact Nat.isDigit_of_mem_toDigits (by decide) (by decide) h

/-- Zeros in front of a number do not change its value. -/
theorem ofDigitChars_padded : Nat.ofDigitChars 10 (padded width n).toList 0 = n := by
  rw [toList_padded, Nat.ofDigitChars_append, Nat.ofDigitChars_replicate_zero, Nat.mul_zero]
  exact Nat.ofDigitChars_toDigits (by decide) (by decide)

theorem padded_injective : Function.Injective (padded width) := by
  intro n n' h
  rw [← ofDigitChars_padded (n := n), h, ofDigitChars_padded]

theorem toList_trialId (i j : ℕ) :
    (trialId i j).toList = 'I' :: ((padded 5 i).toList ++ '_' :: 'T' :: (padded 2 j).toList) := by
  rw [show trialId i j = "I" ++ padded 5 i ++ "_T" ++ padded 2 j from rfl]
  simp [String.toList_append]

/-- Trials of different numbers have different names, also where a number is wider than its
padding: the mark between the two numbers is no digit. -/
theorem trialId_injective {i i' j j' : ℕ} (h : trialId i j = trialId i' j') : i = i' ∧ j = j' := by
  have hlist := congrArg String.toList h
  rw [toList_trialId, toList_trialId] at hlist
  -- The first mark ends the number of the instance, as there is none within a number.
  have hmark {width n : ℕ} : '_' ∉ (padded width n).toList := by
    intro hmem
    exact absurd (isDigit_of_mem_padded hmem) (by decide)
  have hparts := (List.append_cons_inj_of_notMem hmark (by simp [hmark])).mp
    (List.cons.inj hlist).2
  obtain ⟨hi, -, hj⟩ := hparts
  exact ⟨padded_injective (String.toList_injective hi),
    padded_injective (String.toList_injective (List.cons.inj hj).2)⟩

end Names

section Places
variable {α : Type}

/-- The numbers of a row's instance and trial, and its solver. -/
def Row.place (row : Row α) : ℕ × ℕ × String :=
  (row.instanceIndex, row.trialIndex, row.result.solver)

def Config.places (c : Config) : List (ℕ × ℕ × String) :=
  List.range c.problem.instances ×ˢ List.range c.problem.trials ×ˢ c.solvers.map (·.name)

/-- Rows of which none is missing, twice there or out of its place. -/
structure IsComplete (c : Config) (rows : List (Row α)) : Prop where
  places : rows.map Row.place = c.places
  count : rows.length = c.problem.instances * c.problem.trials * c.solvers.length
  distinct : (rows.map fun row => (row.trialId, row.result.solver)).Nodup

theorem Config.nodup_places {c : Config} (h : (c.solvers.map (·.name)).Nodup) : c.places.Nodup :=
  List.nodup_range.product (List.nodup_range.product h)

variable [Scalar α] [Transcendental α]

theorem Written.map_place {c : Config} {bs : List (Blueprint α)} {rs : List (Round α)}
    {rows : List (Row α)} (h : Written c bs rs rows) : rows.map Row.place = rs.flatMap fun r =>
      (bs.map (·.name)).map fun name => (r.instanceIndex, r.trialIndex, name) := by
  induction h with
  | nil => rfl
  | @cons r rs t rows ht _ ih =>
    rw [List.map_append, List.flatMap_cons, ih, ← ht.map_solver, List.map_map, List.map_map]
    rfl

theorem Written.isComplete {c : Config} {bs : List (Blueprint α)} {rows : List (Row α)}
    (hc : c.Equipped bs) (h : Written c bs (rounds c.problem) rows) : IsComplete c rows := by
  have hplaces : rows.map Row.place = c.places := by
    rw [h.map_place, hc.map_name, rounds_eq, List.flatMap_assoc]
    apply List.flatMap_congr
    intro i _
    show _ = ((List.range c.problem.trials).flatMap _).map (Prod.mk i)
    rw [List.flatMap_map, List.map_flatMap]
    apply List.flatMap_congr
    intro j _
    exact List.map_map.symm
  constructor
  · exact hplaces
  · have hlength := congrArg List.length hplaces
    rw [Config.places, List.length_product, List.length_product] at hlength
    simpa [Nat.mul_assoc] using hlength
  · have hnodup := Config.nodup_places (c := c) (hc.map_name ▸ hc.nodup)
    rw [← hplaces] at hnodup
    have hname : (rows.map fun row => (row.trialId, row.result.solver)) =
        (rows.map Row.place).map fun place => (trialId place.1 place.2.1, place.2.2) := by
      rw [List.map_map]
      rfl
    rw [hname]
    apply hnodup.map
    rintro ⟨i, j, name⟩ ⟨i', j', name'⟩ heq
    obtain ⟨hid, hname⟩ := Prod.mk.inj heq
    obtain ⟨rfl, rfl⟩ := trialId_injective hid
    exact congrArg _ (congrArg _ hname)

end Places

end Qubo.Benchmark

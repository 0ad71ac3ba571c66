import Mathlib.Data.String.Basic
import Mathlib.Tactic
import Qubo.Telemetry.Summary

/-! What a summary counts: for each group its events, and for each label how many of them carry it,
with the labels in their order and each of them once. -/
namespace Qubo.Telemetry

section Labels
variable {counts : List (String × ℕ)}

/-- How often a label has been counted. -/
def occurrences (counts : List (String × ℕ)) (label : String) : ℕ :=
  (counts.map fun c => if c.1 = label then c.2 else 0).sum

/-- Labels in their order, each of them once and only if it has been counted. -/
structure Orderly (counts : List (String × ℕ)) : Prop where
  sorted : (counts.map Prod.fst).Pairwise (· < ·)
  positive : ∀ c ∈ counts, 0 < c.2

theorem occurrences_cons (label : String) (n : ℕ) (counts : List (String × ℕ)) (l : String) :
    occurrences ((label, n) :: counts) l =
      (if label = l then n else 0) + occurrences counts l := by
  rw [occurrences, List.map_cons, List.sum_cons, occurrences]

theorem occurrences_countLabel (label : String) (counts : List (String × ℕ)) (l : String) :
    occurrences (countLabel label counts) l =
      occurrences counts l + if label = l then 1 else 0 := by
  induction counts with
  | nil => rw [countLabel, occurrences_cons, Nat.add_comm]
  | cons c counts ih =>
    obtain ⟨l', n⟩ := c
    by_cases hl' : l' = label
    · subst hl'
      rw [countLabel, if_pos rfl, occurrences_cons, occurrences_cons]
      split_ifs <;> omega
    · rw [countLabel, if_neg hl']
      by_cases hlt : label < l'
      · rw [if_pos hlt, occurrences_cons, Nat.add_comm]
      · rw [if_neg hlt, occurrences_cons, occurrences_cons, ih, Nat.add_assoc]

theorem mem_keys_countLabel {label l : String} :
    l ∈ (countLabel label counts).map Prod.fst ↔ l = label ∨ l ∈ counts.map Prod.fst := by
  induction counts with
  | nil => simp [countLabel]
  | cons c counts ih =>
    obtain ⟨l', n⟩ := c
    simp only [countLabel]
    split_ifs with hl' hlt
    · subst hl'
      simp
    · simp
    · simp only [List.map_cons, List.mem_cons, ih]
      tauto

theorem Orderly.countLabel (h : Orderly counts) (label : String) :
    Orderly (countLabel label counts) := by
  induction counts with
  | nil => exact ⟨List.pairwise_singleton _ _, by simp [Telemetry.countLabel]⟩
  | cons c counts ih =>
    obtain ⟨l, n⟩ := c
    obtain ⟨hfirst, hsorted⟩ := List.pairwise_cons.mp h.sorted
    obtain ⟨hn, hpositive⟩ := List.forall_mem_cons.mp h.positive
    have hrest := ih ⟨hsorted, hpositive⟩
    simp only [Telemetry.countLabel]
    split_ifs with hl hlt
    · exact ⟨h.sorted, List.forall_mem_cons.mpr ⟨Nat.succ_pos n, hpositive⟩⟩
    · refine ⟨List.pairwise_cons.mpr ⟨?_, h.sorted⟩,
        List.forall_mem_cons.mpr ⟨Nat.one_pos, h.positive⟩⟩
      intro l' hl'
      rcases List.mem_cons.mp hl' with rfl | hl'
      · exact hlt
      · exact hlt.trans (hfirst l' hl')
    · refine ⟨List.pairwise_cons.mpr ⟨?_, hrest.sorted⟩,
        List.forall_mem_cons.mpr ⟨hn, hrest.positive⟩⟩
      intro l' hl'
      rcases mem_keys_countLabel.mp hl' with rfl | hl'
      · exact lt_of_le_of_ne (not_lt.mp hlt) hl
      · exact hfirst l' hl'

theorem occurrences_eq_zero {l : String} (h : l ∉ counts.map Prod.fst) :
    occurrences counts l = 0 := by
  apply List.sum_eq_zero
  intro n hn
  obtain ⟨c, hc, rfl⟩ := List.mem_map.mp hn
  exact if_neg fun hl => h (hl.subst (List.mem_map_of_mem hc))

theorem Orderly.mem_iff (h : Orderly counts) {l : String} {n : ℕ} :
    (l, n) ∈ counts ↔ 0 < n ∧ n = occurrences counts l := by
  induction counts with
  | nil => simp [occurrences]; omega
  | cons c counts ih =>
    obtain ⟨l', n'⟩ := c
    obtain ⟨hfirst, hsorted⟩ := List.pairwise_cons.mp h.sorted
    obtain ⟨hn', hpositive⟩ := List.forall_mem_cons.mp h.positive
    rw [List.mem_cons, ih ⟨hsorted, hpositive⟩, occurrences_cons, Prod.mk.injEq]
    by_cases hl : l' = l
    · subst hl
      have hnew : l' ∉ counts.map Prod.fst := fun hmem => lt_irrefl _ (hfirst l' hmem)
      rw [occurrences_eq_zero hnew, if_pos rfl]
      constructor
      · rintro (⟨-, rfl⟩ | ⟨hpos, rfl⟩)
        · exact ⟨hn', rfl⟩
        · exact absurd hpos (lt_irrefl 0)
      · rintro ⟨-, hn⟩
        exact Or.inl ⟨rfl, hn⟩
    · rw [if_neg hl, Nat.zero_add]
      exact or_iff_right fun hsame => hl hsame.1.symm

/-- Labels in their order are known by how often each has been counted. -/
theorem Orderly.eq_of_occurrences {counts' : List (String × ℕ)} (h : Orderly counts)
    (h' : Orderly counts') (heq : ∀ l, occurrences counts l = occurrences counts' l) :
    counts = counts' := by
  have hnodup {cs : List (String × ℕ)} (hcs : Orderly cs) : cs.Nodup :=
    .of_map Prod.fst (hcs.sorted.imp fun hlt => ne_of_lt hlt)
  have hperm : counts.Perm counts' := by
    rw [List.perm_ext_iff_of_nodup (hnodup h) (hnodup h')]
    rintro ⟨l, n⟩
    rw [h.mem_iff, h'.mem_iff, heq]
  have hsorted := List.pairwise_map.mp h.sorted
  have hsorted' := List.pairwise_map.mp h'.sorted
  exact hperm.eq_of_pairwise (fun c d _ _ hcd hdc => absurd hcd (lt_asymm hdc)) hsorted hsorted'

end Labels

variable {α : Type} [Scalar α]

namespace GroupSummary

def ofEvents (events : List (Event α)) : GroupSummary α := events.foldl add empty

theorem count_foldl (events : List (Event α)) (s : GroupSummary α) :
    (events.foldl add s).count = s.count + events.length := by
  induction events generalizing s with
  | nil => rfl
  | cons e events ih =>
    rw [List.foldl_cons, ih, List.length_cons]
    exact Nat.succ_add_eq_add_succ _ _

theorem count_ofEvents (events : List (Event α)) : (ofEvents events).count = events.length := by
  rw [ofEvents, count_foldl]
  exact Nat.zero_add _

theorem labels_foldl (events : List (Event α)) {s : GroupSummary α} (h : Orderly s.labels) :
    Orderly (events.foldl add s).labels ∧ ∀ l, occurrences (events.foldl add s).labels l =
      occurrences s.labels l + (events.map (·.label)).count l := by
  induction events generalizing s with
  | nil => exact ⟨h, fun l => rfl⟩
  | cons e events ih =>
    obtain ⟨horderly, hcounts⟩ := ih (s := s.add e) (h.countLabel e.label)
    refine ⟨horderly, fun l => ?_⟩
    have hadd : occurrences (s.add e).labels l = _ := occurrences_countLabel e.label s.labels l
    rw [List.foldl_cons, hcounts, hadd, List.map_cons, List.count_cons, Nat.add_assoc,
      Nat.add_comm (ite _ _ _)]
    simp only [beq_iff_eq]

theorem orderly_ofEvents (events : List (Event α)) : Orderly (ofEvents events).labels :=
  (labels_foldl events ⟨List.Pairwise.nil, by simp [empty]⟩).1

theorem occurrences_ofEvents (events : List (Event α)) (l : String) :
    occurrences (ofEvents events).labels l = (events.map (·.label)).count l := by
  have hcounts := (labels_foldl events (s := empty) ⟨.nil, by simp [empty]⟩).2 l
  rw [ofEvents, hcounts]
  exact Nat.zero_add _

/-- The labels of a group are those that its events carry, with how many of them do. -/
theorem mem_labels_ofEvents {events : List (Event α)} {l : String} {n : ℕ} :
    (l, n) ∈ (ofEvents events).labels ↔ 0 < n ∧ n = (events.map (·.label)).count l := by
  rw [(orderly_ofEvents events).mem_iff, occurrences_ofEvents]

end GroupSummary

namespace Summary

def group (s : Summary α) : Group → GroupSummary α
  | .anneal => s.anneal
  | .search => s.search
  | .trial => s.trials

theorem group_add (s : Summary α) (e : Event α) (g : Group) :
    (s.add e).group g = if e.group = g then (s.group g).add e else s.group g := by
  rw [add.eq_def]
  cases he : e.group <;> cases g <;> rfl

/-- Each group is summarised from its own events. -/
theorem group_ofEvents (events : List (Event α)) (g : Group) :
    (ofEvents events).group g = .ofEvents (events.filter fun e => e.group = g) := by
  have hfold (s : Summary α) : (events.foldl add s).group g =
      (events.filter fun e => e.group = g).foldl GroupSummary.add (s.group g) := by
    induction events generalizing s with
    | nil => rfl
    | cons e events ih =>
      rw [List.foldl_cons, ih, group_add, List.filter_cons]
      by_cases he : e.group = g <;> simp [he]
  rw [ofEvents, hfold]
  cases g <;> rfl

end Summary

end Qubo.Telemetry

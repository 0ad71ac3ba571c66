import Mathlib.Tactic
import Qubo.SolverError
import Qubo.Proofs.Exact
import Qubo.Proofs.Search.Tally

/-! What a search of a space of assignments promises of the list it reports, and why a tally of
the whole space keeps the promise. -/
namespace Qubo

/-- A list of what a predicate admits, without repetition. -/
structure Enumerates {β : Type} (xs : List β) (P : β → Prop) : Prop where
  nodup : xs.Nodup
  mem_iff : ∀ x, x ∈ xs ↔ P x

theorem Enumerates.map {β κ : Type} {keys : List κ} {P : κ → Prop} {Q : β → Prop} {f : κ → β}
    (h : Enumerates keys P) (hinj : ∀ k k', P k → P k' → f k = f k' → k = k')
    (hsound : ∀ k, P k → Q (f k)) (honto : ∀ x, Q x → ∃ k, P k ∧ f k = x) :
    Enumerates (keys.map f) Q := by
  constructor
  case nodup =>
    refine h.nodup.map_on fun k hk k' hk' => ?_
    exact hinj k k' ((h.mem_iff k).mp hk) ((h.mem_iff k').mp hk')
  case mem_iff =>
    intro x
    rw [List.mem_map]
    constructor
    · rintro ⟨k, hk, rfl⟩
      exact hsound k ((h.mem_iff k).mp hk)
    · intro hx
      obtain ⟨k, hk, hkx⟩ := honto x hx
      exact ⟨k, (h.mem_iff k).mpr hk, hkx⟩

namespace Search

/-- An energy that some assignment of the space has and none of them beats. -/
structure IsOptimum {σ : Type} (d : Direction) (space : σ → Prop)
    (energy : σ → Except SolverError ℚ) (optimum : ℚ) : Prop where
  reached : ∃ x, space x ∧ energy x = .ok optimum
  unbeaten : ∀ x e, space x → energy x = .ok e → d.sign optimum ≤ d.sign e

/-- The list `solutions`, with one and the same energy `reported` for each, out of a space with
the best energy `optimum`. -/
structure Lists {σ : Type} (d : Direction) (space : σ → Prop) (energy : σ → Except SolverError ℚ)
    (cap : ℕ) (energies : List ℚ) (solutions : List σ) (reported optimum : ℚ) : Prop where
  energies_eq : energies = List.replicate solutions.length reported
  /-- The list is not empty, and its head has the reported energy exactly. -/
  head : ∃ x rest, solutions = x :: rest ∧ energy x = .ok reported
  length_le : solutions.length ≤ cap
  nodup : solutions.Nodup
  near : ∀ x ∈ solutions, space x ∧ ∃ e, energy x = .ok e ∧ |e - reported| ≤ Scalar.tolerance
  isOptimum : IsOptimum d space energy optimum
  not_better : d.sign optimum ≤ d.sign reported
  close : d.sign reported ≤ d.sign optimum + Scalar.tolerance
  complete : solutions.length < cap → ∀ x, space x → energy x = .ok optimum → x ∈ solutions

/-- Nothing but the optimum lies within the tolerance of it. -/
def Isolated {σ : Type} (space : σ → Prop) (energy : σ → Except SolverError ℚ) (optimum : ℚ) :
    Prop :=
  ∀ x e, space x → energy x = .ok e → e ≠ optimum → Scalar.tolerance < |e - optimum|

/-- Energies that are not equal are more than the tolerance apart. -/
def Separated {σ : Type} (space : σ → Prop) (energy : σ → Except SolverError ℚ) : Prop :=
  ∀ x y e e', space x → space y → energy x = .ok e → energy y = .ok e' → e ≠ e' →
    Scalar.tolerance < |e - e'|

section
variable {σ : Type} {d : Direction} {space : σ → Prop} {energy : σ → Except SolverError ℚ}
  {cap : ℕ} {energies : List ℚ} {solutions : List σ} {reported optimum : ℚ}

theorem Lists.exists_head (h : Lists d space energy cap energies solutions reported optimum) :
    ∃ x, space x ∧ energy x = .ok reported := by
  obtain ⟨x, rest, hsolutions, hx⟩ := h.head
  exact ⟨x, (h.near x (hsolutions ▸ List.mem_cons_self)).1, hx⟩

/-- The reported energy is at most the tolerance worse than any other. -/
theorem Lists.sign_sub_le (h : Lists d space energy cap energies solutions reported optimum)
    {x : σ} {e : ℚ} (hx : space x) (he : energy x = .ok e) :
    d.sign (reported - e) ≤ Scalar.tolerance := by
  have hbest := h.isOptimum.unbeaten x e hx he
  rw [d.sign_sub]
  linarith [h.close]

theorem IsOptimum.isolated (h : IsOptimum d space energy optimum)
    (hsep : Separated space energy) : Isolated space energy optimum := by
  obtain ⟨y, hy, hoptimum⟩ := h.reached
  exact fun x e hx he hne => hsep x y e optimum hx hy he hoptimum hne

/-- The reported energy, which is within the tolerance of the optimum, is equal to it if nothing
else is as near. -/
theorem Lists.reported_eq (h : Lists d space energy cap energies solutions reported optimum)
    (hfar : Isolated space energy optimum) : reported = optimum := by
  obtain ⟨x, hx, hreported⟩ := h.exists_head
  obtain ⟨y, hy, hoptimum⟩ := h.isOptimum.reached
  by_contra hne
  have hclose : |reported - optimum| ≤ Scalar.tolerance := by
    have hnonneg : 0 ≤ d.sign (reported - optimum) := by
      rw [d.sign_sub]
      exact sub_nonneg.mpr h.not_better
    rw [← d.abs_sign, abs_of_nonneg hnonneg]
    exact h.sign_sub_le hy hoptimum
  exact absurd (hfar x reported hx hreported hne) (not_lt.mpr hclose)

/-- Of a space with an isolated optimum, nothing but optima is listed. -/
theorem Lists.energy_eq (h : Lists d space energy cap energies solutions reported optimum)
    (hfar : Isolated space energy optimum) {x : σ} (hx : x ∈ solutions) :
    space x ∧ energy x = .ok optimum := by
  obtain ⟨hmem, e, he, hnear⟩ := h.near x hx
  refine ⟨hmem, ?_⟩
  by_contra hne
  have hdiffer : e ≠ optimum := fun heq => hne (by rw [he, heq])
  rw [h.reported_eq hfar] at hnear
  exact absurd (hfar x e hmem he hdiffer) (not_lt.mpr hnear)

/-- Of a space with separated energies, a list with room left is exactly the set of optima. -/
theorem Lists.mem_iff (h : Lists d space energy cap energies solutions reported optimum)
    (hsep : Separated space energy) (hroom : solutions.length < cap) (x : σ) :
    x ∈ solutions ↔ space x ∧ energy x = .ok optimum :=
  ⟨h.energy_eq (h.isOptimum.isolated hsep), fun ⟨hx, he⟩ => h.complete hroom x hx he⟩

variable {κ : Type} {keys : List κ} {value : κ → ℚ} {t : Tally κ ℚ} {least : ℚ}

/-- A tally of keys that stand for the assignments of a space, each for one. -/
theorem Tally.Summary.lists
    (h : Tally.Summary cap (keys.map fun key => (key, value key)) t least) {solution : κ → σ}
    (hkeys : Enumerates (keys.map solution) space)
    (henergy : ∀ key ∈ keys, energy (solution key) = .ok (d.sign (value key))) :
    t.ties.toList.Sublist keys ∧
      ∃ optimum, Lists d space energy cap (List.replicate t.ties.size (d.sign least))
        (t.ties.toList.map solution) (d.sign least) optimum := by
  have hseen {key : κ} {e : ℚ} (hmem : (key, e) ∈ keys.map fun key => (key, value key)) :
      key ∈ keys ∧ e = value key := by
    obtain ⟨key', hkey, heq⟩ := List.mem_map.mp hmem
    obtain ⟨rfl, rfl⟩ := Prod.mk.inj heq
    exact ⟨hkey, rfl⟩
  have hspace {key : κ} (hkey : key ∈ keys) : space (solution key) :=
    (hkeys.mem_iff _).mp (List.mem_map_of_mem hkey)
  have hsublist : t.ties.toList.Sublist keys := by
    simpa [Function.comp_def] using h.sublist
  obtain ⟨key, rest, hties, hfirst⟩ := h.first
  obtain ⟨hkey, rfl⟩ := hseen hfirst
  obtain ⟨best, hbest, hmin⟩ :=
    Set.exists_min_image {key | key ∈ keys} value (List.finite_toSet keys) ⟨_, hkey⟩
  have hmin : ∀ key ∈ keys, value best ≤ value key := hmin
  -- What an assignment of the space costs is what its key was met with.
  have hcost (x : σ) (e : ℚ) (hx : space x) (he : energy x = .ok e) :
      ∃ key ∈ keys, solution key = x ∧ e = d.sign (value key) := by
    obtain ⟨key, hkey, rfl⟩ := List.mem_map.mp ((hkeys.mem_iff x).mpr hx)
    exact ⟨key, hkey, rfl, Except.ok.inj (he.symm.trans (henergy key hkey))⟩
  refine ⟨hsublist, d.sign (value best),
    ⟨by simp, ?_, by simpa using h.size_le, hkeys.nodup.sublist (hsublist.map solution), ?_, ⟨?_, ?_⟩,
      ?_, ?_, ?_⟩⟩
  · exact ⟨solution key, rest.map solution, by rw [hties, List.map_cons], henergy key hkey⟩
  · intro x hx
    obtain ⟨key, hkey, rfl⟩ := List.mem_map.mp hx
    obtain ⟨e, he, hnear⟩ := h.near key hkey
    obtain ⟨hmem, rfl⟩ := hseen he
    refine ⟨hspace hmem, _, henergy key hmem, ?_⟩
    rwa [← d.sign_sub, d.abs_sign]
  · exact ⟨_, hspace hbest, henergy best hbest⟩
  · intro x e hx he
    obtain ⟨key, hkey, -, rfl⟩ := hcost x e hx he
    simpa using hmin key hkey
  · simpa using hmin key hkey
  · have hbelow := h.below _ (List.mem_map_of_mem hbest)
    rw [d.sign_sign, d.sign_sign]
    linarith
  · intro hroom x hx he
    obtain ⟨key, hkey, rfl, heq⟩ := hcost x _ hx he
    have hlow : value key = value best := by simpa using congrArg d.sign heq.symm
    refine List.mem_map_of_mem (h.kept (by simpa using hroom) _ (List.mem_map_of_mem hkey) ?_)
    intro c hc
    obtain ⟨key', hkey', rfl⟩ := List.mem_map.mp hc
    exact hlow.trans_le (hmin key' hkey')

end

end Search

end Qubo

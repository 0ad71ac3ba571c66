import Mathlib.Tactic
import Qubo.Search.Tally
import Qubo.Proofs.Exact

/-! What a tally knows of the candidates it has met. The least energy it keeps is never more than
the tolerance above any of them, the ties lie within the tolerance of it, and while there is room
every candidate with the lowest energy of all is among the ties. -/
namespace Qubo.Search
namespace Tally
variable {κ : Type}

/-- A tally with room for `cap` ties sums up the candidates `seen` so far. -/
structure Summary (cap : ℕ) (seen : List (κ × ℚ)) (t : Tally κ ℚ) (least : ℚ) : Prop where
  least_eq : t.least = some least
  /-- The first tie is the candidate whose energy is kept. -/
  first : ∃ key rest, t.ties.toList = key :: rest ∧ (key, least) ∈ seen
  sublist : t.ties.toList.Sublist (seen.map Prod.fst)
  size_le : t.ties.size ≤ cap
  near : ∀ key ∈ t.ties.toList, ∃ e, (key, e) ∈ seen ∧ |e - least| ≤ Scalar.tolerance
  below : ∀ c ∈ seen, least - Scalar.tolerance ≤ c.2
  kept : t.ties.size < cap → ∀ c ∈ seen, (∀ c' ∈ seen, c.2 ≤ c'.2) → c.1 ∈ t.ties.toList

theorem offer_of_least_eq {cap : ℕ} {t : Tally κ ℚ} {least : ℚ} (h : t.least = some least)
    (key : κ) (e : ℚ) :
    t.offer cap (key, e) =
      if e < least - Scalar.tolerance then ⟨some e, #[key]⟩
      else if |e - least| ≤ Scalar.tolerance ∧ t.ties.size < cap then
        { t with ties := t.ties.push key }
      else t := by
  simp [offer, h, Scalar.magnitude_rat]

/-- A tally of one candidate, the first or one that starts the ties anew. -/
theorem summary_single {cap : ℕ} (hcap : 0 < cap) (seen : List (κ × ℚ)) (key : κ) (e : ℚ)
    (hlow : ∀ c ∈ seen, e < c.2) :
    Summary cap (seen ++ [(key, e)]) ⟨some e, #[key]⟩ e where
  least_eq := rfl
  first := ⟨key, [], rfl, by simp⟩
  sublist := by simp
  size_le := hcap
  near := by
    intro k hk
    obtain rfl : k = key := by simpa using hk
    exact ⟨e, by simp, by simpa using Scalar.tolerance_pos.le⟩
  below := by
    intro c hc
    have htol := Scalar.tolerance_pos
    rcases List.mem_append.mp hc with hc | hc
    · linarith [hlow c hc]
    · obtain rfl : c = (key, e) := by simpa using hc
      linarith
  kept := by
    intro _ c hc hmin
    rcases List.mem_append.mp hc with hc | hc
    · exact absurd (hmin (key, e) (by simp)) (not_le.mpr (hlow c hc))
    · obtain rfl : c = (key, e) := by simpa using hc
      simp

section Offer
variable {cap : ℕ} {seen : List (κ × ℚ)} {t : Tally κ ℚ} {least : ℚ}

theorem Summary.below_snoc (h : Summary cap seen t least) (key : κ) {e : ℚ}
    (hhigh : least - Scalar.tolerance ≤ e) :
    ∀ c ∈ seen ++ [(key, e)], least - Scalar.tolerance ≤ c.2 := by
  intro c hc
  rcases List.mem_append.mp hc with hc | hc
  · exact h.below c hc
  · obtain rfl : c = (key, e) := by simpa using hc
    exact hhigh

/-- A candidate near the kept energy joins the ties, behind those that were there. -/
theorem Summary.push (h : Summary cap seen t least) (key : κ) {e : ℚ}
    (hnear : |e - least| ≤ Scalar.tolerance) (hroom : t.ties.size < cap) :
    Summary cap (seen ++ [(key, e)]) { t with ties := t.ties.push key } least where
  least_eq := h.least_eq
  first := by
    obtain ⟨first, rest, hties, hfirst⟩ := h.first
    exact ⟨first, rest ++ [key], by simp [hties], List.mem_append_left _ hfirst⟩
  sublist := by
    rw [Array.toList_push, List.map_append]
    exact h.sublist.append (List.Sublist.refl _)
  size_le := by simpa using hroom
  near := by
    intro k hk
    rw [Array.toList_push, List.mem_append] at hk
    rcases hk with hk | hk
    · obtain ⟨x, hx, hle⟩ := h.near k hk
      exact ⟨x, List.mem_append_left _ hx, hle⟩
    · obtain rfl : k = key := by simpa using hk
      exact ⟨e, by simp, hnear⟩
  below := by
    apply h.below_snoc key
    linarith [(abs_le.mp hnear).1]
  kept := by
    intro _ c hc hmin
    rw [Array.toList_push, List.mem_append]
    rcases List.mem_append.mp hc with hc | hc
    · exact Or.inl (h.kept hroom c hc fun c' hc' => hmin c' (List.mem_append_left _ hc'))
    · obtain rfl : c = (key, e) := by simpa using hc
      exact Or.inr (by simp)

/-- A candidate that does not join the ties is too high or finds no room among them. -/
theorem Summary.pass (h : Summary cap seen t least) (key : κ) {e : ℚ}
    (hhigh : least - Scalar.tolerance ≤ e)
    (hout : ¬(|e - least| ≤ Scalar.tolerance ∧ t.ties.size < cap)) :
    Summary cap (seen ++ [(key, e)]) t least where
  least_eq := h.least_eq
  first := by
    obtain ⟨first, rest, hties, hfirst⟩ := h.first
    exact ⟨first, rest, hties, List.mem_append_left _ hfirst⟩
  sublist := h.sublist.trans (by simp)
  size_le := h.size_le
  near := by
    intro k hk
    obtain ⟨x, hx, hle⟩ := h.near k hk
    exact ⟨x, List.mem_append_left _ hx, hle⟩
  below := h.below_snoc key hhigh
  kept := by
    intro hroom c hc hmin
    rcases List.mem_append.mp hc with hc | hc
    · exact h.kept hroom c hc fun c' hc' => hmin c' (List.mem_append_left _ hc')
    · -- The lowest energy of all is not above the kept one, so the candidate would have joined.
      obtain rfl : c = (key, e) := by simpa using hc
      obtain ⟨first, rest, -, hfirst⟩ := h.first
      have hle : e ≤ least := hmin _ (List.mem_append_left _ hfirst)
      have hnear : |e - least| ≤ Scalar.tolerance := by
        rw [abs_of_nonpos (by linarith)]
        linarith
      exact absurd ⟨hnear, hroom⟩ hout

/-- One more candidate leaves the tally a summary of all candidates. -/
theorem Summary.offer (h : Summary cap seen t least) (c : κ × ℚ) :
    ∃ least', Summary cap (seen ++ [c]) (t.offer cap c) least' := by
  obtain ⟨key, e⟩ := c
  rw [offer_of_least_eq h.least_eq]
  split_ifs with hlow hjoin
  · have hcap : 0 < cap := by
      obtain ⟨first, rest, hties, -⟩ := h.first
      have hsize : t.ties.size = rest.length + 1 := by
        rw [← Array.length_toList, hties, List.length_cons]
      have hle := h.size_le
      omega
    exact ⟨e, summary_single hcap seen key e fun c hc => hlow.trans_le (h.below c hc)⟩
  · exact ⟨least, h.push key hjoin.1 hjoin.2⟩
  · exact ⟨least, h.pass key (not_lt.mp hlow) hjoin⟩

theorem Summary.offerAll (h : Summary cap seen t least) (cs : List (κ × ℚ)) :
    ∃ least', Summary cap (seen ++ cs) (t.offerAll cap cs) least' := by
  induction cs generalizing seen t least with
  | nil => exact ⟨least, by simpa [Tally.offerAll] using h⟩
  | cons c cs ih =>
    obtain ⟨least', h'⟩ := h.offer c
    have hs := ih h'
    rwa [List.append_assoc, List.singleton_append] at hs

end Offer

/-- A tally that has met at least one candidate sums up what it has met. -/
theorem summary_offerAll {cap : ℕ} (hcap : 0 < cap) {cs : List (κ × ℚ)} (hcs : cs ≠ []) :
    ∃ least, Summary cap cs (empty.offerAll cap cs) least := by
  obtain ⟨c, cs, rfl⟩ := List.exists_cons_of_ne_nil hcs
  exact (summary_single hcap [] c.1 c.2 (by simp)).offerAll cs

section Kept
variable {α : Type} [Scalar α] {cap : ℕ} {t : Tally κ α}

/-- A tally that has kept an energy has kept an assignment with it. -/
def Keeps (t : Tally κ α) : Prop := ∃ least, t.least = some least ∧ 0 < t.ties.size

theorem Keeps.offer (h : t.Keeps) (c : κ × α) : (t.offer cap c).Keeps := by
  obtain ⟨least, hleast, hsize⟩ := h
  unfold Tally.offer
  simp only [hleast]
  split
  · exact ⟨c.2, rfl, Nat.one_pos⟩
  split
  · exact ⟨least, rfl, by simp⟩
  · exact ⟨least, hleast, hsize⟩

theorem Keeps.offerAll (h : t.Keeps) (cs : List (κ × α)) : (t.offerAll cap cs).Keeps := by
  induction cs generalizing t with
  | nil => exact h
  | cons c cs ih => exact ih (h.offer c)

/-- A candidate below every upper bound is kept if nothing is kept yet. -/
theorem keeps_offerAll {cs : List (κ × α)} (h : t.least = none ∨ t.Keeps)
    (hcs : ∃ c ∈ cs, Scalar.isBounded c.2 = true) : (t.offerAll cap cs).Keeps := by
  induction cs generalizing t with
  | nil => simp at hcs
  | cons c cs ih =>
    rcases h with hnone | hkeeps
    · by_cases hc : Scalar.isBounded c.2 = true
      · have hoffer : t.offer cap c = ⟨some c.2, #[c.1]⟩ := by simp [offer, hnone, hc]
        have hkeeps : (t.offer cap c).Keeps := hoffer ▸ ⟨c.2, rfl, Nat.one_pos⟩
        exact hkeeps.offerAll cs
      · have hoffer : t.offer cap c = t := by simp [offer, hnone, hc]
        obtain ⟨c', hc', hbounded⟩ := hcs
        have hmem : c' ∈ cs := (List.mem_cons.mp hc').resolve_left fun h => hc (h ▸ hbounded)
        have hrest := ih (Or.inl hnone) ⟨c', hmem, hbounded⟩
        rwa [← hoffer] at hrest
    · exact hkeeps.offerAll (c :: cs)

theorem size_ties_offer {bound : ℕ} (hcap : 0 < cap) (hle : cap ≤ bound)
    (h : t.ties.size ≤ bound) (c : κ × α) : (t.offer cap c).ties.size ≤ bound := by
  have hone : (#[c.1] : Array κ).size ≤ bound := Nat.succ_le_of_lt (hcap.trans_le hle)
  unfold offer
  cases t.least with
  | none =>
    dsimp only
    split
    · exact hone
    · exact h
  | some least =>
    dsimp only
    split
    · exact hone
    split
    next htie =>
      rw [Array.size_push]
      exact (Nat.succ_le_of_lt htie.2).trans hle
    · exact h

/-- No more ties are kept than the caps allow under which they were offered. -/
theorem size_ties_offerAll {bound : ℕ} (hcap : 0 < cap) (hle : cap ≤ bound)
    (h : t.ties.size ≤ bound) (cs : List (κ × α)) : (t.offerAll cap cs).ties.size ≤ bound := by
  induction cs generalizing t with
  | nil => exact h
  | cons c cs ih => exact ih (size_ties_offer hcap hle h c)

/-- The ties are assignments that were offered, in the order in which they were. -/
theorem sublist_ties_offer (c : κ × α) :
    (t.offer cap c).ties.toList.Sublist (t.ties.toList ++ [c.1]) := by
  have hanew : [c.1].Sublist (t.ties.toList ++ [c.1]) := List.sublist_append_right _ _
  have hsame : t.ties.toList.Sublist (t.ties.toList ++ [c.1]) := List.sublist_append_left _ _
  unfold offer
  cases t.least with
  | none =>
    dsimp only
    split
    · exact hanew
    · exact hsame
  | some least =>
    dsimp only
    split
    · exact hanew
    split
    · rw [Array.toList_push]
    · exact hsame

theorem sublist_ties_offerAll (cs : List (κ × α)) :
    (t.offerAll cap cs).ties.toList.Sublist (t.ties.toList ++ cs.map Prod.fst) := by
  induction cs generalizing t with
  | nil => simp [offerAll]
  | cons c cs ih =>
    have hfirst : (t.offer cap c).ties.toList.Sublist (t.ties.toList ++ [c.1]) :=
      sublist_ties_offer c
    have hrest := hfirst.append_right (cs.map Prod.fst)
    rw [List.append_assoc, List.singleton_append] at hrest
    exact ih.trans hrest

/-- Every tie has been offered. -/
theorem mem_ties_offerAll {cs : List (κ × α)} {key : κ} (h : key ∈ (t.offerAll cap cs).ties) :
    key ∈ t.ties ∨ ∃ c ∈ cs, key = c.1 := by
  have hmem := (sublist_ties_offerAll cs).mem h.val
  simpa [eq_comm] using hmem

end Kept

end Tally

/-- No tile reaches past the bound. -/
theorem le_of_mem_tiles {bound size : ℕ} {r : ℕ × ℕ} (hr : r ∈ tiles bound size) :
    r.2 ≤ bound := by
  obtain ⟨i, -, rfl⟩ := List.mem_map.mp hr
  exact min_le_right _ _

/-- Tiles follow one another without gaps or overlaps, up to the bound. -/
theorem flatMap_span_tiles {bound size : ℕ} (hsize : 0 < size) :
    (tiles bound size).flatMap span = List.range bound := by
  have hprefix (k : ℕ) : ((List.range k).map fun i =>
      (i * size, min ((i + 1) * size) bound)).flatMap span = List.range (min (k * size) bound) := by
    induction k with
    | zero => simp
    | succ k ih =>
      have hstep : k * size ≤ (k + 1) * size := Nat.mul_le_mul_right _ (Nat.le_succ k)
      rw [List.range_succ, List.map_append, List.flatMap_append, ih, List.map_singleton,
        List.flatMap_singleton, span]
      rcases le_or_gt (k * size) bound with hle | hgt
      · have hjoin := List.range'_append_1 (s := 0) (m := k * size)
          (n := min ((k + 1) * size) bound - k * size)
        rw [Nat.zero_add, Nat.add_sub_cancel' (le_min hstep hle)] at hjoin
        rw [min_eq_left hle, List.range_eq_range', List.range_eq_range']
        exact hjoin
      · rw [min_eq_right hgt.le, min_eq_right (hgt.le.trans hstep), Nat.sub_eq_zero_of_le hgt.le]
        simp
  have hcover : bound ≤ (bound + size - 1) / size * size := by
    have hdiv := Nat.div_add_mod (bound + size - 1) size
    have hmod := Nat.mod_lt (bound + size - 1) hsize
    rw [Nat.mul_comm]
    omega
  rw [tiles, hprefix, min_eq_right hcover]

end Qubo.Search

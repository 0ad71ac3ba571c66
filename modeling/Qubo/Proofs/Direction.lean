import Mathlib.Data.List.Sort
import Mathlib.Order.Bounds.Basic
import Qubo.Direction

/-! Under a total preorder, in either direction: the scan finds the first value that no other
beats, the sort is stable and puts that value first, and a reversing negation swaps the two
directions. -/
namespace Qubo
namespace Direction

section Maps
variable {α β : Type} [LT α] [DecidableLT α] [LT β] [DecidableLT β] {d e : Direction} {f : α → β}

/-- A map under which the comparisons come out the same moves the best of a list along. -/
theorem bestEntry?_map (hf : ∀ a b, e.isBetter (f a) (f b) = d.isBetter a b) (xs : List α) :
    e.bestEntry? (xs.map f) = (d.bestEntry? xs).map (Prod.map f id) := by
  have hkeep (kept next : α × ℕ) : e.keepBetter (kept.map f id) (next.map f id) =
      (d.keepBetter kept next).map f id := by
    unfold keepBetter
    rw [Prod.map_fst, Prod.map_fst, hf]
    split <;> rfl
  have hfold (es : List (α × ℕ)) (kept : α × ℕ) :
      (es.map (Prod.map f id)).foldl e.keepBetter (kept.map f id) =
        (es.foldl d.keepBetter kept).map f id := by
    induction es generalizing kept with
    | nil => rfl
    | cons next es ih => rw [List.map_cons, List.foldl_cons, List.foldl_cons, hkeep, ih]
  unfold bestEntry?
  rw [List.zipIdx_map]
  cases xs.zipIdx with
  | nil => rfl
  | cons kept es => exact congrArg some (hfold es kept)

theorem best?_map (hf : ∀ a b, e.isBetter (f a) (f b) = d.isBetter a b) (xs : List α) :
    e.best? (xs.map f) = (d.best? xs).map f := by
  rw [best?, best?, bestEntry?_map hf, Option.map_map, Option.map_map]
  rfl

theorem bestIndex?_map (hf : ∀ a b, e.isBetter (f a) (f b) = d.isBetter a b) (xs : List α) :
    e.bestIndex? (xs.map f) = d.bestIndex? xs := by
  rw [bestIndex?, bestIndex?, bestEntry?_map hf, Option.map_map]
  rfl

/-- Values with keys compare as their keys do. -/
theorem bestEntry?_keys {τ : Type} (d : Direction) (cs : List (Keyed α τ)) :
    d.bestEntry? (cs.map (·.key)) = (d.bestEntry? cs).map fun e => (e.1.key, e.2) :=
  bestEntry?_map (d := d) (e := d) (f := Keyed.key) (fun _ _ => rfl) cs

end Maps

section Entries
variable {α : Type} [LT α] [DecidableLT α] (d : Direction)

theorem keepBetter_eq_or (kept next : α × ℕ) :
    d.keepBetter kept next = next ∨ d.keepBetter kept next = kept := by
  unfold keepBetter
  split_ifs
  · exact Or.inl rfl
  · exact Or.inr rfl

theorem foldl_keepBetter_mem (es : List (α × ℕ)) (e : α × ℕ) :
    es.foldl d.keepBetter e ∈ e :: es := by
  induction es generalizing e with
  | nil => exact List.mem_cons_self
  | cons next es ih =>
    have hmem := ih (d.keepBetter e next)
    rw [List.foldl_cons]
    rcases d.keepBetter_eq_or e next with heq | heq <;> rw [heq] at hmem ⊢
    · exact List.mem_cons_of_mem e hmem
    · rcases List.mem_cons.mp hmem with h | h
      · exact List.mem_cons.mpr (Or.inl h)
      · exact List.mem_cons_of_mem e (List.mem_cons_of_mem next h)

/-- The best value stands at its position. -/
theorem getElem?_of_bestEntry? {xs : List α} {e : α × ℕ} (h : d.bestEntry? xs = some e) :
    xs[e.2]? = some e.1 := by
  unfold bestEntry? at h
  cases hentries : xs.zipIdx with
  | nil => simp [hentries] at h
  | cons first es =>
    rw [hentries] at h
    obtain rfl := Option.some.inj h
    exact List.mem_zipIdx_iff_getElem?.mp (hentries ▸ d.foldl_keepBetter_mem es first)

/-- However values compare, some value of a list that is not empty is the best. -/
theorem exists_bestEntry? {xs : List α} (hxs : xs ≠ []) : ∃ e, d.bestEntry? xs = some e := by
  unfold bestEntry?
  cases hentries : xs.zipIdx with
  | nil => exact absurd (List.zipIdx_eq_nil_iff.mp hentries) hxs
  | cons e es => exact ⟨_, rfl⟩

theorem exists_best? {xs : List α} (hxs : xs ≠ []) : ∃ b, d.best? xs = some b := by
  obtain ⟨e, he⟩ := d.exists_bestEntry? hxs
  exact ⟨e.1, by rw [best?, he]; rfl⟩

end Entries

/-- The first value is as good as the second, or better. -/
def AtLeast {α : Type} [LE α] : Direction → α → α → Prop
  | .minimize, a, b => a ≤ b
  | .maximize, a, b => b ≤ a

/-- At this place of the list stands a value that no other beats. -/
def Unbeaten {α : Type} [LT α] [DecidableLT α] (d : Direction) (xs : List α) (k : ℕ) : Prop :=
  ∃ x, xs[k]? = some x ∧ ∀ y ∈ xs, d.isBetter y x = false

/-- The same values with the better ones first. Those that compare equal stand as they stood. -/
structure IsStableSort {α : Type} [LT α] [DecidableLT α] (d : Direction) (xs ys : List α) :
    Prop where
  perm : ys.Perm xs
  ordered : ys.Pairwise fun a b => d.isBetter b a = false
  stable : ∀ x, (ys.filter fun y => d.compare y x == .eq) = xs.filter fun y => d.compare y x == .eq

/-- What a scan holds on to: of all entries seen, the first that none of them beats. -/
structure Leads {α : Type} [LE α] (d : Direction) (seen : List (α × ℕ)) (kept : α × ℕ) :
    Prop where
  mem : kept ∈ seen
  atLeast : ∀ e ∈ seen, d.AtLeast kept.1 e.1
  first : ∀ e ∈ seen, e.2 < kept.2 → ¬ d.AtLeast e.1 kept.1

section Preorder
variable {α : Type} [Preorder α] {d : Direction} {a b c : α}

theorem Leads.atLeast_of_mem {xs : List α} {e : α × ℕ} (h : d.Leads xs.zipIdx e) {y : α}
    (hy : y ∈ xs) : d.AtLeast e.1 y := by
  obtain ⟨k, hk⟩ := List.mem_iff_getElem?.mp hy
  exact h.atLeast (y, k) (List.mem_zipIdx_iff_getElem?.mpr hk)

theorem AtLeast.refl (d : Direction) (a : α) : d.AtLeast a a := by
  cases d <;> exact le_refl a

theorem AtLeast.trans (hab : d.AtLeast a b) (hbc : d.AtLeast b c) : d.AtLeast a c := by
  cases d with
  | minimize => exact le_trans (show a ≤ b from hab) hbc
  | maximize => exact le_trans (show c ≤ b from hbc) hab

theorem compare_swap [DecidableLT α] (d : Direction) (a b : α) :
    (d.compare a b).swap = d.compare b a := by
  unfold compare
  by_cases hab : a < b
  · cases d <;> simp [hab, hab.not_gt]
  · by_cases hba : b < a <;> cases d <;> simp [hab, hba]

variable [Std.Total (α := α) (· ≤ ·)]

theorem AtLeast.total (d : Direction) (a b : α) : d.AtLeast a b ∨ d.AtLeast b a := by
  have h (x y : α) : x ≤ y ∨ y ≤ x := Std.Total.total x y
  cases d with
  | minimize => exact h a b
  | maximize => exact h b a

variable [DecidableLT α]

theorem isBetter_iff : d.isBetter a b = true ↔ ¬ d.AtLeast b a := by
  have hlt (x y : α) : x < y ↔ ¬ y ≤ x :=
    ⟨not_le_of_gt, fun h => lt_of_le_not_ge ((Std.Total.total x y).resolve_right h) h⟩
  cases d with
  | minimize =>
    unfold isBetter compare AtLeast
    rw [← hlt]
    split_ifs with hab hba <;> simp [hab]
  | maximize =>
    unfold isBetter compare AtLeast
    rw [← hlt]
    split_ifs with hab hba
    · simp [hab.not_gt]
    · simp [hba]
    · simp [hba]

theorem isBetter_eq_false : d.isBetter b a = false ↔ d.AtLeast a b := by
  rw [← Bool.not_eq_true, isBetter_iff, not_not]

theorem compare_ne_gt : (d.compare a b != .gt) = true ↔ d.AtLeast a b := by
  rw [← isBetter_eq_false, isBetter, ← d.compare_swap a b]
  cases d.compare a b <;> decide

theorem compare_trans (d : Direction) (a b c : α) (hab : (d.compare a b != .gt) = true)
    (hbc : (d.compare b c != .gt) = true) : (d.compare a c != .gt) = true :=
  compare_ne_gt.mpr ((compare_ne_gt.mp hab).trans (compare_ne_gt.mp hbc))

theorem compare_total (d : Direction) (a b : α) :
    (d.compare a b != .gt || d.compare b a != .gt) = true := by
  rw [Bool.or_eq_true, compare_ne_gt, compare_ne_gt]
  exact AtLeast.total d a b

theorem compare_eq : (d.compare a b == .eq) = true ↔ d.AtLeast a b ∧ d.AtLeast b a := by
  rw [← compare_ne_gt, ← compare_ne_gt, ← d.compare_swap a b]
  cases d.compare a b <;> decide

/-- A scan goes over the entries in the order of their places. -/
theorem Leads.keepBetter {seen : List (α × ℕ)} {kept next : α × ℕ} (h : d.Leads seen kept)
    (hnext : ∀ e ∈ seen, e.2 < next.2) : d.Leads (seen ++ [next]) (d.keepBetter kept next) := by
  unfold Direction.keepBetter
  split_ifs with hbetter
  · -- whatever is seen already is no better than the entry kept so far
    have hnot := isBetter_iff.mp hbetter
    have hle := (AtLeast.total d kept.1 next.1).resolve_left hnot
    refine ⟨by simp, fun e he => ?_, fun e he hlt => ?_⟩
    · rcases List.mem_append.mp he with he | he
      · exact hle.trans (h.atLeast e he)
      · obtain rfl := List.mem_singleton.mp he
        exact AtLeast.refl d e.1
    · rcases List.mem_append.mp he with he | he
      · exact fun hge => hnot ((h.atLeast e he).trans hge)
      · obtain rfl := List.mem_singleton.mp he
        exact absurd hlt (lt_irrefl _)
  · refine ⟨List.mem_append_left _ h.mem, fun e he => ?_, fun e he hlt => ?_⟩
    · rcases List.mem_append.mp he with he | he
      · exact h.atLeast e he
      · obtain rfl := List.mem_singleton.mp he
        exact isBetter_eq_false.mp (Bool.not_eq_true _ ▸ hbetter)
    · rcases List.mem_append.mp he with he | he
      · exact h.first e he hlt
      · obtain rfl := List.mem_singleton.mp he
        exact absurd hlt (hnext _ h.mem).not_gt

theorem Leads.foldl {seen es : List (α × ℕ)} {kept : α × ℕ} (h : d.Leads seen kept)
    (hplaces : (seen ++ es).Pairwise fun e e' => e.2 < e'.2) :
    d.Leads (seen ++ es) (es.foldl d.keepBetter kept) := by
  induction es generalizing seen kept with
  | nil => simpa using h
  | cons next es ih =>
    have hnext : ∀ e ∈ seen, e.2 < next.2 := fun e he =>
      (List.pairwise_append.mp hplaces).2.2 e he next List.mem_cons_self
    rw [List.append_cons] at hplaces ⊢
    exact ih (h.keepBetter hnext) hplaces

theorem leads_of_some {xs : List α} {e : α × ℕ} (h : d.bestEntry? xs = some e) :
    d.Leads xs.zipIdx e := by
  have hplaces : xs.zipIdx.Pairwise fun e e' => e.2 < e'.2 := by
    rw [← List.pairwise_map, List.zipIdx_map_snd]
    exact List.pairwise_lt_range' ..
  unfold bestEntry? at h
  cases hentries : xs.zipIdx with
  | nil => simp [hentries] at h
  | cons first es =>
    rw [hentries] at h hplaces
    obtain rfl := Option.some.inj h
    have hfirst : d.Leads [first] first :=
      ⟨by simp, by simp [AtLeast.refl], by simp⟩
    exact hfirst.foldl hplaces

theorem exists_best?_atLeast (d : Direction) {xs : List α} (hxs : xs ≠ []) :
    ∃ b ∈ xs, d.best? xs = some b ∧ ∀ x ∈ xs, d.AtLeast b x := by
  obtain ⟨e, he⟩ := d.exists_bestEntry? hxs
  exact ⟨e.1, List.mem_of_getElem? (d.getElem?_of_bestEntry? he), by rw [best?, he]; rfl,
    fun x hx => (leads_of_some he).atLeast_of_mem hx⟩

theorem isLeast_of_leads {xs : List α} {e : α × ℕ} (h : d.Leads xs.zipIdx e) :
    IsLeast {k | d.Unbeaten xs k} e.2 := by
  have hentry : xs[e.2]? = some e.1 := List.mem_zipIdx_iff_getElem?.mp h.mem
  refine ⟨⟨e.1, hentry, fun y hy => isBetter_eq_false.mpr (h.atLeast_of_mem hy)⟩, fun k hk => ?_⟩
  obtain ⟨x, hx, hunbeaten⟩ := hk
  by_contra hlt
  refine h.first (x, k) (List.mem_zipIdx_iff_getElem?.mpr hx) (not_le.mp hlt) ?_
  exact isBetter_eq_false.mp (hunbeaten e.1 (List.mem_of_getElem? hentry))

theorem pairwise_sort (d : Direction) (xs : List α) : (d.sort xs).Pairwise d.AtLeast :=
  (List.pairwise_mergeSort d.compare_trans d.compare_total xs).imp compare_ne_gt.mp

theorem sort_of_pairwise {xs : List α} (h : xs.Pairwise d.AtLeast) : d.sort xs = xs :=
  List.mergeSort_of_pairwise (h.imp compare_ne_gt.mpr)

theorem filter_sort (d : Direction) (xs : List α) (x : α) :
    ((d.sort xs).filter fun y => d.compare y x == .eq) =
      xs.filter fun y => d.compare y x == .eq := by
  -- the values equal to `x` are a sorted sublist, which the sort leaves as it is
  have hsorted : (xs.filter fun y => d.compare y x == .eq).Pairwise
      fun a b => (d.compare a b != .gt) = true := by
    refine List.pairwise_of_forall_mem_list fun a ha b hb => compare_ne_gt.mpr ?_
    have hax := compare_eq.mp (List.mem_filter.mp ha).2
    have hbx := compare_eq.mp (List.mem_filter.mp hb).2
    exact hax.1.trans hbx.2
  have hsub : (xs.filter fun y => d.compare y x == .eq).Sublist (d.sort xs) :=
    List.sublist_mergeSort d.compare_trans d.compare_total hsorted
      List.filter_sublist
  have hfilter := hsub.filter fun y => d.compare y x == .eq
  rw [List.filter_filter, funext fun y => Bool.and_self _] at hfilter
  exact (hfilter.eq_of_length ((List.mergeSort_perm xs _).filter _).length_eq.symm).symm

theorem sort_isStableSort (d : Direction) (xs : List α) : d.IsStableSort xs (d.sort xs) where
  perm := List.mergeSort_perm xs _
  ordered := (d.pairwise_sort xs).imp isBetter_eq_false.mpr
  stable := d.filter_sort xs

/-- Of the values that compare equal to the best one, the scan and the sort take the same. -/
theorem head?_sort {xs : List α} {e : α × ℕ} (h : d.Leads xs.zipIdx e) :
    (d.sort xs).head? = some e.1 := by
  have hentry : xs[e.2]? = some e.1 := List.mem_zipIdx_iff_getElem?.mp h.mem
  have hmem : e.1 ∈ d.sort xs :=
    (List.mergeSort_perm xs _).mem_iff.mpr (List.mem_of_getElem? hentry)
  have hfound : (d.sort xs).find? (fun y => d.compare y e.1 == .eq) = some e.1 := by
    rw [← List.head?_filter, d.filter_sort, List.head?_filter, List.find?_eq_some_iff_getElem]
    obtain ⟨hlt, hget⟩ := List.getElem?_eq_some_iff.mp hentry
    refine ⟨compare_eq.mpr ⟨AtLeast.refl d e.1, AtLeast.refl d e.1⟩, e.2, hlt, hget,
      fun j hj => ?_⟩
    have hnot := h.first (xs[j], j)
      (List.mem_zipIdx_iff_getElem?.mpr (List.getElem?_eq_getElem (hj.trans hlt))) hj
    rw [Bool.not_eq_true', Bool.eq_false_iff, Ne, compare_eq]
    exact fun heq => hnot heq.1
  have hpairwise := d.pairwise_sort xs
  cases hsort : d.sort xs with
  | nil => simp [hsort] at hmem
  | cons y ys =>
    rw [hsort] at hfound hmem hpairwise
    have hle : d.AtLeast y e.1 := by
      rcases List.mem_cons.mp hmem with heq | hys
      · exact heq ▸ AtLeast.refl d e.1
      · exact List.rel_of_pairwise_cons hpairwise hys
    have hge : d.AtLeast e.1 y := by
      have hy : y ∈ d.sort xs := hsort ▸ List.mem_cons_self
      exact h.atLeast_of_mem ((List.mergeSort_perm xs _).mem_iff.mp hy)
    rwa [List.find?_cons, compare_eq.mpr ⟨hle, hge⟩] at hfound

theorem isBetter_neg [Neg α] (hneg : ∀ a b : α, -a ≤ -b ↔ b ≤ a) (a b : α) :
    isBetter .minimize (-a) (-b) = isBetter .maximize a b := by
  rw [Bool.eq_iff_iff, isBetter_iff, isBetter_iff]
  exact not_congr (hneg b a)

/-- Under a total preorder: the sort is stable and repeating it changes nothing; the scan finds the
first value that none beats, which the sort puts first; and under a negation that turns the order
around, the two directions find the same place. -/
theorem scan_and_sort (d : Direction) (xs : List α) :
    (∀ a b : α, d.isBetter a b = true ↔ ¬ d.AtLeast b a) ∧
    d.IsStableSort xs (d.sort xs) ∧ d.sort (d.sort xs) = d.sort xs ∧
    (xs ≠ [] → ∃ i x, d.bestIndex? xs = some i ∧ IsLeast {k | d.Unbeaten xs k} i ∧
      d.best? xs = some x ∧ xs[i]? = some x ∧ (d.sort xs).head? = some x) ∧
    (d.bestIndex? ([] : List α) = none ∧ d.best? ([] : List α) = none) ∧
    ∀ [Neg α], (∀ a b : α, -a ≤ -b ↔ b ≤ a) →
      bestIndex? .maximize xs = bestIndex? .minimize (xs.map (-·)) ∧
      best? .minimize (xs.map (-·)) = (best? .maximize xs).map (-·) := by
  refine ⟨fun _ _ => isBetter_iff, d.sort_isStableSort xs, sort_of_pairwise (d.pairwise_sort xs),
    fun hxs => ?_, ⟨rfl, rfl⟩, fun hneg => ⟨?_, ?_⟩⟩
  · obtain ⟨e, he⟩ := d.exists_bestEntry? hxs
    have hleads := leads_of_some he
    exact ⟨e.2, e.1, by rw [bestIndex?, he]; rfl, isLeast_of_leads hleads,
      by rw [best?, he]; rfl, d.getElem?_of_bestEntry? he, head?_sort hleads⟩
  · exact (bestIndex?_map (isBetter_neg hneg) xs).symm
  · exact best?_map (isBetter_neg hneg) xs

end Preorder
end Direction

section Keyed
variable {κ τ : Type}

instance [Preorder κ] : Preorder (Keyed κ τ) where
  le a b := a.key ≤ b.key
  lt a b := a.key < b.key
  le_refl a := le_refl a.key
  le_trans _ _ _ hab hbc := le_trans (show _ ≤ _ from hab) hbc
  lt_iff_le_not_ge a b := lt_iff_le_not_ge (a := a.key) (b := b.key)

instance [Preorder κ] [Std.Total (α := κ) (· ≤ ·)] : Std.Total (α := Keyed κ τ) (· ≤ ·) :=
  ⟨fun a b => Std.Total.total (r := (· ≤ ·)) a.key b.key⟩

/-- The key negated; the tag stays. -/
def Keyed.negate [Neg κ] (c : Keyed κ τ) : Keyed κ τ := { c with key := -c.key }

end Keyed

/-- The two largest keys tie; the tags tell them apart. -/
theorem Direction.scan_and_sort_of_ties :
    let xs : List (Keyed ℤ Char) := [⟨3, 'a'⟩, ⟨5, 'b'⟩, ⟨1, 'c'⟩, ⟨5, 'd'⟩]
    ((maximize.sort xs).filter fun y => maximize.compare y ⟨5, 'x'⟩ == .eq).map (·.tag) =
      ['b', 'd'] ∧
    maximize.Unbeaten xs 1 ∧ maximize.Unbeaten xs 3 ∧ maximize.bestIndex? xs = some 1 ∧
    (maximize.sort xs).head?.map (·.tag) = some 'b' ∧
    minimize.bestIndex? (xs.map Keyed.negate) = some 1 := by
  intro xs
  let _ : Neg (Keyed ℤ Char) := ⟨Keyed.negate⟩
  obtain ⟨-, hsort, -, hbest, -, hneg⟩ := scan_and_sort maximize xs
  obtain ⟨-, x, -, -, hx, -, hhead⟩ := hbest (by simp [xs])
  have hindex : maximize.bestIndex? xs = some 1 := rfl
  refine ⟨?_, ⟨⟨5, 'b'⟩, rfl, by decide⟩, ⟨⟨5, 'd'⟩, rfl, by decide⟩, hindex, ?_, ?_⟩
  · rw [hsort.stable]
    rfl
  · have hfirst : maximize.best? xs = some ⟨5, 'b'⟩ := rfl
    rw [hhead, ← hx, hfirst]
    rfl
  · rw [← hindex]
    exact (hneg fun a b => Int.neg_le_neg_iff (a := a.key) (b := b.key)).1.symm

end Qubo

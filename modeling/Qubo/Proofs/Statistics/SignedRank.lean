import Mathlib.Tactic
import Mathlib.Data.List.TakeWhile
import Qubo.Statistics.SignedRank
import Qubo.Proofs.Exact

/-! The ranks of a signed-rank test. Those who tie share the ranks that they take up, so the sum of
all ranks is kept; and a rank hangs on the magnitude alone, so the verdict hangs neither on the
order of the differences nor on which of the two samples is taken from the other. -/
namespace Qubo.Statistics.SignedRank

section
variable {α : Type} [Scalar α]

/-- The differences that count, ranked by their magnitudes. -/
def ranking (differences : List α) : List (Ranked α) :=
  rankFrom 0 (groups (byMagnitude (counted differences)))

/-- The variance that a test reckons with. -/
def spread (differences : List α) : α :=
  variance (counted differences).length (groups (byMagnitude (counted differences)))

/-- The same rank for another difference. -/
def Ranked.onDifference (σ : α → α) (r : Ranked α) : Ranked α := ⟨r.rank, σ r.difference⟩

theorem groups_cons (d : α) (ds : List α) :
    groups (d :: ds) =
      (d :: ds.takeWhile (isTied d)) :: groups (ds.dropWhile (isTied d)) := by
  rw [groups]

/-- Groups split the list: nothing is lost, doubled or moved. -/
theorem flatten_groups (ds : List α) : (groups ds).flatten = ds := by
  induction ds using groups.induct with
  | case1 => simp [groups]
  | case2 d ds ih =>
    rw [groups_cons, List.flatten_cons, ih, List.cons_append, List.takeWhile_append_dropWhile]

theorem ne_nil_of_mem_groups {ds g : List α} (hg : g ∈ groups ds) : g ≠ [] := by
  induction ds using groups.induct with
  | case1 => simp [groups] at hg
  | case2 d ds ih =>
    rw [groups_cons] at hg
    rcases List.mem_cons.mp hg with rfl | hg
    · exact List.cons_ne_nil _ _
    · exact ih hg

theorem map_difference_rankFrom (before : ℕ) (gs : List (List α)) :
    (rankFrom before gs).map (·.difference) = gs.flatten := by
  induction gs generalizing before with
  | nil => rfl
  | cons g gs ih => simp [rankFrom, ih, Function.comp_def]

theorem map_difference_ranking (ds : List α) :
    (ranking ds).map (·.difference) = byMagnitude (counted ds) := by
  rw [ranking, map_difference_rankFrom, flatten_groups]

theorem byMagnitude_perm (ds : List α) : (byMagnitude ds).Perm ds := List.mergeSort_perm ds _

/-- Ranks do not look at what is ranked. -/
theorem rankFrom_map (σ : α → α) (before : ℕ) (gs : List (List α)) :
    rankFrom before (gs.map (List.map σ)) =
      (rankFrom before gs).map (Ranked.onDifference σ) := by
  induction gs generalizing before with
  | nil => rfl
  | cons g gs ih =>
    rw [List.map_cons, rankFrom, rankFrom, ih, List.map_append, List.length_map, List.map_map,
      List.map_map]
    rfl

/-- The variance looks at the sizes of the groups only. -/
theorem variance_congr (n : ℕ) {gs gs' : List (List α)}
    (h : gs'.map List.length = gs.map List.length) : variance n gs' = variance n gs := by
  have hsizes (gs : List (List α)) : (gs.filter (1 < ·.length)).map (fun g => tieTerm g.length) =
      ((gs.map List.length).filter (1 < ·)).map (tieTerm (α := α)) := by
    rw [List.filter_map, List.map_map]
    rfl
  rw [variance, variance, hsizes, hsizes, h]

end

/-! Sums of ranks -/

theorem sum_rank_rankFrom (before : ℕ) (gs : List (List ℚ)) :
    ((rankFrom before gs).map (·.rank)).sum =
      gs.flatten.length * (2 * before + gs.flatten.length + 1) / 2 := by
  induction gs generalizing before with
  | nil => simp [rankFrom]
  | cons g gs ih =>
    rw [rankFrom, List.map_append, List.sum_append, ih, List.map_map, List.flatten_cons,
      List.length_append]
    have hgroup : (g.map ((·.rank) ∘ fun d => (⟨Scalar.ratio (2 * before + g.length + 1) 2, d⟩ :
        Ranked ℚ))).sum = g.length * ((2 * before + g.length + 1) / 2) := by
      simp [Function.comp_def, Scalar.ratio]
    rw [hgroup]
    push_cast
    ring

theorem rankSum_add {rs : List (Ranked ℚ)} (h : ∀ r ∈ rs, r.difference ≠ 0) :
    rankSum true rs + rankSum false rs = (rs.map (·.rank)).sum := by
  simp only [rankSum, Scalar.sum_rat, Scalar.zero_rat, if_true, Bool.false_eq_true, if_false]
  induction rs with
  | nil => simp
  | cons r rs ih =>
    have hrest := ih fun r' hr' => h r' (List.mem_cons_of_mem r hr')
    rcases lt_or_gt_of_ne (h r List.mem_cons_self) with hneg | hpos
    · simp only [List.filter_cons, decide_eq_true hneg, decide_eq_false hneg.not_gt, if_true,
        Bool.false_eq_true, if_false, List.map_cons, List.sum_cons]
      linarith
    · simp only [List.filter_cons, decide_eq_true hpos, decide_eq_false hpos.not_gt, if_true,
        Bool.false_eq_true, if_false, List.map_cons, List.sum_cons]
      linarith

theorem rankSum_perm (positive : Bool) {rs rs' : List (Ranked ℚ)} (h : rs'.Perm rs) :
    rankSum positive rs' = rankSum positive rs := by
  rw [rankSum, rankSum, Scalar.sum_rat, Scalar.sum_rat]
  exact ((h.filter _).map _).sum_eq

/-- With all signs turned around, the two sums of ranks change places. -/
theorem rankSum_neg (positive : Bool) (rs : List (Ranked ℚ)) :
    rankSum positive (rs.map (Ranked.onDifference (-·))) = rankSum (!positive) rs := by
  rw [rankSum, rankSum, List.filter_map, List.map_map]
  congr 2
  refine List.filter_congr fun r _ => ?_
  cases positive <;> simp [Ranked.onDifference]

/-! Ties -/

theorem tieTerm_rat (c : ℕ) : (tieTerm c : ℚ) = ((c : ℚ) ^ 3 - c) / 48 := by
  simp only [tieTerm, Nat.cast_ofNat]
  ring

/-- Groups that are put together count for more than they do apart. -/
theorem tieTerm_add_le (a b : ℕ) : (tieTerm a : ℚ) + tieTerm b ≤ tieTerm (a + b) := by
  rw [tieTerm_rat, tieTerm_rat, tieTerm_rat]
  have hproduct : (0 : ℚ) ≤ a * b * (a + b) := by positivity
  push_cast
  linarith

theorem sum_tieTerm_le (gs : List (List ℚ)) :
    ((gs.filter (1 < ·.length)).map fun g => (tieTerm g.length : ℚ)).sum ≤
      tieTerm gs.flatten.length := by
  induction gs with
  | nil => simp [tieTerm_rat]
  | cons g gs ih =>
    rw [List.flatten_cons, List.length_append]
    refine le_trans ?_ (tieTerm_add_le g.length gs.flatten.length)
    by_cases hg : 1 < g.length
    · rw [List.filter_cons_of_pos (by simpa using hg), List.map_cons, List.sum_cons]
      exact add_le_add_right ih _
    · -- A group of one, or none, makes the variance no smaller.
      have hzero : (tieTerm g.length : ℚ) = 0 := by
        have hsize : g.length = 0 ∨ g.length = 1 := by omega
        rcases hsize with h | h <;> simp [tieTerm_rat, h]
      rw [List.filter_cons_of_neg (by simpa using hg), hzero, zero_add]
      exact ih

theorem variance_pos {gs : List (List ℚ)} (h : 0 < gs.flatten.length) :
    0 < variance gs.flatten.length gs := by
  have hties := sum_tieTerm_le gs
  rw [tieTerm_rat] at hties
  have hn : (1 : ℚ) ≤ gs.flatten.length := by exact_mod_cast h
  simp only [variance, Scalar.sum_rat, Scalar.one_rat, Scalar.two_rat, Nat.cast_ofNat]
  nlinarith [mul_self_nonneg (gs.flatten.length : ℚ), pow_pos (zero_lt_one.trans_le hn) 3]

/-! Ranks and magnitudes -/

section Magnitudes
variable {σ : ℚ → ℚ}

theorem isTied_map (hσ : ∀ d, |σ d| = |d|) (d x : ℚ) : isTied (σ d) (σ x) = isTied d x := by
  simp only [isTied, Scalar.magnitude_rat, hσ]

theorem groups_map (hσ : ∀ d, |σ d| = |d|) (ds : List ℚ) :
    groups (ds.map σ) = (groups ds).map (List.map σ) := by
  induction ds using groups.induct with
  | case1 => simp [groups]
  | case2 d ds ih =>
    have htied : isTied (σ d) ∘ σ = isTied d := funext fun x => isTied_map hσ d x
    rw [List.map_cons, groups_cons, groups_cons, List.takeWhile_map, List.dropWhile_map, htied, ih]
    rfl

/-- What is left after a group lies above all of it. -/
theorem tieWidth_le_of_mem_dropWhile {d x : ℚ} {ds : List ℚ}
    (hsorted : (d :: ds).Pairwise fun a b => |a| ≤ |b|) (hx : x ∈ ds.dropWhile (isTied d)) :
    tieWidth ≤ |x| - |d| := by
  induction ds with
  | nil => simp at hx
  | cons e ds ih =>
    obtain ⟨hfirst, hrest⟩ := List.pairwise_cons.mp hsorted
    have hde := hfirst e List.mem_cons_self
    by_cases htied : isTied d e = true
    · rw [List.dropWhile_cons_of_pos htied] at hx
      exact ih (List.pairwise_cons.mpr ⟨fun y hy => hfirst y (List.mem_cons_of_mem e hy),
        (List.pairwise_cons.mp hrest).2⟩) hx
    · rw [List.dropWhile_cons_of_neg htied] at hx
      have hapart : tieWidth ≤ |e| - |d| := by
        simpa [isTied, Scalar.magnitude_rat, abs_of_nonneg (sub_nonneg.mpr hde)] using htied
      rcases List.mem_cons.mp hx with rfl | hx
      · exact hapart
      · linarith [(List.pairwise_cons.mp hrest).1 x hx]

/-- Of sorted differences, those of one magnitude have one rank. -/
theorem exists_rank (before : ℕ) {ds : List ℚ} (hsorted : ds.Pairwise fun a b => |a| ≤ |b|) :
    ∃ rank : ℚ → ℚ, ∀ r ∈ rankFrom before (groups ds), r.rank = rank |r.difference| := by
  induction ds using groups.induct generalizing before with
  | case1 => exact ⟨id, by simp [groups, rankFrom]⟩
  | case2 d ds ih =>
    obtain ⟨rank, hrank⟩ := ih (before + (d :: ds.takeWhile (isTied d)).length)
      ((List.pairwise_cons.mp hsorted).2.sublist (List.dropWhile_sublist _))
    let first : ℚ := Scalar.ratio (2 * before + (d :: ds.takeWhile (isTied d)).length + 1) 2
    refine ⟨fun m => if m - |d| < tieWidth then first else rank m, fun r hr => ?_⟩
    rw [groups_cons, rankFrom] at hr
    rcases List.mem_append.mp hr with hr | hr
    · obtain ⟨x, hx, rfl⟩ := List.mem_map.mp hr
      have hnear : |x| - |d| < tieWidth := by
        rcases List.mem_cons.mp hx with rfl | hx
        · simp [tieWidth, Scalar.ratio]
        · have htied := List.mem_takeWhile_imp hx
          simp only [isTied, Scalar.magnitude_rat, decide_eq_true_eq] at htied
          exact (le_abs_self _).trans_lt htied
      exact (if_pos hnear).symm
    · have hmem : r.difference ∈ ds.dropWhile (isTied d) := by
        rw [← flatten_groups (ds.dropWhile (isTied d)), ← map_difference_rankFrom]
        exact List.mem_map_of_mem hr
      have hfar := tieWidth_le_of_mem_dropWhile hsorted hmem
      simp only [if_neg hfar.not_gt]
      exact hrank r hr

end Magnitudes

theorem pairwise_byMagnitude (ds : List ℚ) : (byMagnitude ds).Pairwise fun a b => |a| ≤ |b| := by
  have hsorted : (byMagnitude ds).Pairwise fun a b =>
      decide (Scalar.magnitude a ≤ Scalar.magnitude b) = true :=
    List.pairwise_mergeSort (fun a b c => by simpa using le_trans)
      (fun a b => by simpa using le_total _ _) ds
  exact hsorted.imp fun h => by simpa [Scalar.magnitude_rat] using h

/-- Sorted magnitudes are the same for lists that have the same magnitudes in any order. -/
theorem map_abs_byMagnitude {ds ds' : List ℚ} (h : (ds'.map (|·|)).Perm (ds.map (|·|))) :
    (byMagnitude ds').map (|·|) = (byMagnitude ds).map (|·|) := by
  have hsorted (ds : List ℚ) : ((byMagnitude ds).map (|·|)).Pairwise (· ≤ ·) :=
    List.pairwise_map.mpr (pairwise_byMagnitude ds)
  have hperm : ((byMagnitude ds').map (|·|)).Perm ((byMagnitude ds).map (|·|)) :=
    ((byMagnitude_perm ds').map _).trans (h.trans ((byMagnitude_perm ds).map _).symm)
  exact hperm.eq_of_pairwise' (hsorted ds') (hsorted ds)

/-- Ranks that follow from magnitudes by a rule are the list itself with the rule applied. -/
theorem rankFrom_eq_map {before : ℕ} {ds : List ℚ} {rank : ℚ → ℚ}
    (h : ∀ r ∈ rankFrom before (groups ds), r.rank = rank |r.difference|) :
    rankFrom before (groups ds) = ds.map fun d => ⟨rank |d|, d⟩ := by
  have hmap := map_difference_rankFrom before (groups ds)
  rw [flatten_groups] at hmap
  conv_rhs => rw [← hmap, List.map_map]
  refine (List.map_id _).symm.trans (List.map_congr_left fun r hr => ?_)
  simp [← h r hr]

/-! The verdict -/

theorem clampUnit_mem_Icc (p : ℚ) : clampUnit p ∈ Set.Icc (0 : ℚ) 1 := by
  simp only [clampUnit, Scalar.zero_rat, Scalar.one_rat]
  split_ifs with hlow hhigh
  · exact ⟨le_rfl, zero_le_one⟩
  · exact ⟨zero_le_one, le_rfl⟩
  · exact ⟨not_lt.mp hlow, not_lt.mp hhigh⟩

section Verdict
variable {σ : ℚ → ℚ} {ds ds' : List ℚ}

theorem counted_perm (hσ : ∀ d, |σ d| = |d|) (h : ds'.Perm (ds.map σ)) :
    (counted ds').Perm ((counted ds).map σ) := by
  refine (h.filter _).trans ?_
  rw [List.filter_map]
  simp only [counted, Function.comp_def, Scalar.magnitude_rat, hσ]
  exact List.Perm.refl _

theorem map_abs_counted (hσ : ∀ d, |σ d| = |d|) (h : ds'.Perm (ds.map σ)) :
    (byMagnitude (counted ds')).map (|·|) = (byMagnitude (counted ds)).map (|·|) := by
  apply map_abs_byMagnitude
  refine ((counted_perm hσ h).map _).trans ?_
  rw [List.map_map]
  simp only [Function.comp_def, hσ]
  exact List.Perm.refl _

/-- Differences that are given in another order, or with other signs, are ranked the same. -/
theorem ranking_perm (hσ : ∀ d, |σ d| = |d|) (h : ds'.Perm (ds.map σ)) :
    (ranking ds').Perm ((ranking ds).map (Ranked.onDifference σ)) := by
  have hsorted : ((byMagnitude (counted ds)).map (|·|)).Pairwise fun a b => |a| ≤ |b| :=
    List.pairwise_map.mpr (by simpa using pairwise_byMagnitude (counted ds))
  obtain ⟨rank, hrank⟩ := exists_rank 0 hsorted
  -- One rule gives the ranks of both lists, since they have the same sorted magnitudes.
  have hrule {xs : List ℚ} (hxs : xs.map (|·|) = (byMagnitude (counted ds)).map (|·|)) :
      rankFrom 0 (groups xs) = xs.map fun d => ⟨rank |d|, d⟩ := by
    apply rankFrom_eq_map
    intro r hr
    have hmem : r.onDifference (|·|) ∈
        rankFrom 0 (groups ((byMagnitude (counted ds)).map (|·|))) := by
      rw [← hxs, groups_map abs_abs, rankFrom_map]
      exact List.mem_map_of_mem hr
    simpa [Ranked.onDifference] using hrank _ hmem
  rw [ranking, ranking, hrule (map_abs_counted hσ h), hrule rfl, List.map_map]
  have hperm : (byMagnitude (counted ds')).Perm ((byMagnitude (counted ds)).map σ) :=
    (byMagnitude_perm _).trans ((counted_perm hσ h).trans ((byMagnitude_perm _).map σ).symm)
  refine (hperm.map _).trans ?_
  rw [List.map_map]
  simp only [Function.comp_def, Ranked.onDifference, hσ]
  exact List.Perm.refl _

theorem length_counted (hσ : ∀ d, |σ d| = |d|) (h : ds'.Perm (ds.map σ)) :
    (counted ds').length = (counted ds).length := by
  simpa using (counted_perm hσ h).length_eq

theorem spread_eq (hσ : ∀ d, |σ d| = |d|) (h : ds'.Perm (ds.map σ)) : spread ds' = spread ds := by
  rw [spread, spread, length_counted hσ h]
  apply variance_congr
  have hsizes (xs : List ℚ) : (groups xs).map List.length =
      (groups (xs.map (|·|))).map List.length := by
    rw [groups_map abs_abs, List.map_map]
    simp [Function.comp_def]
  rw [hsizes (byMagnitude (counted ds')), map_abs_counted hσ h, ← hsizes]

theorem sum_rank_ranking : ((ranking ds).map (·.rank)).sum =
    (counted ds).length * ((counted ds).length + 1) / 2 := by
  rw [ranking, sum_rank_rankFrom, flatten_groups, (byMagnitude_perm _).length_eq]
  simp

/-- Every rank goes to one of the two signs. -/
theorem rankSum_ranking : rankSum true (ranking ds) + rankSum false (ranking ds) =
    (counted ds).length * ((counted ds).length + 1) / 2 := by
  rw [rankSum_add, sum_rank_ranking]
  intro r hr hzero
  have hmem : r.difference ∈ counted ds := by
    rw [← (byMagnitude_perm _).mem_iff, ← map_difference_ranking]
    exact List.mem_map_of_mem hr
  have hfar : Scalar.tolerance < |r.difference| := by
    simpa [Scalar.magnitude_rat] using (List.mem_filter.mp hmem).2
  rw [hzero, abs_zero] at hfar
  exact hfar.not_gt Scalar.tolerance_pos

theorem spread_pos (h : 0 < (counted ds).length) : 0 < spread ds := by
  have hflatten : (groups (byMagnitude (counted ds))).flatten.length = (counted ds).length := by
    rw [flatten_groups, (byMagnitude_perm _).length_eq]
  rw [spread, ← hflatten]
  exact variance_pos (hflatten ▸ h)

variable [Transcendental ℚ] [NormalLaw ℚ]

/-- The verdict on `n` differences that count, from the smaller sum of ranks. -/
def verdict (n : ℕ) (smaller spread : ℚ) : Verdict ℚ :=
  ⟨clampUnit (2 * (1 - NormalLaw.cdf ((|smaller - meanSum n| - 1 / 2) /
    Transcendental.sqrt spread))), n⟩

/-- The variance never stands in the way of a verdict. -/
theorem test_eq (ds : List ℚ) : test ds =
    if (counted ds).length = 0 then ⟨1, 0⟩
    else verdict (counted ds).length
      (min (rankSum true (ranking ds)) (rankSum false (ranking ds))) (spread ds) := by
  have hmin (a b : ℚ) : (if b < a then b else a) = min a b := by
    rcases lt_or_ge b a with h | h
    · rw [if_pos h, min_eq_right h.le]
    · rw [if_neg h.not_gt, min_eq_left h]
  by_cases hn : (counted ds).length = 0
  · simp [test, hn]
  · have hspread := spread_pos (Nat.pos_of_ne_zero hn)
    rw [if_neg hn, test]
    simp only [if_neg hn]
    rw [if_neg (by simpa [spread] using hspread.not_ge), hmin]
    simp [verdict, Scalar.magnitude_rat, ranking, spread]

/-- A test that ranks the same sums, in either order, comes to the same verdict. -/
theorem test_congr (hσ : ∀ d, |σ d| = |d|) (h : ds'.Perm (ds.map σ))
    (hsums : min (rankSum true (ranking ds')) (rankSum false (ranking ds')) =
      min (rankSum true (ranking ds)) (rankSum false (ranking ds))) : test ds' = test ds := by
  rw [test_eq, test_eq, length_counted hσ h, spread_eq hσ h, hsums]

theorem test_perm (h : ds'.Perm ds) : test ds' = test ds := by
  have hid : ds'.Perm (ds.map id) := by simpa using h
  have hranking := ranking_perm (σ := id) (fun _ => rfl) hid
  rw [show Ranked.onDifference (id : ℚ → ℚ) = id from rfl, List.map_id] at hranking
  apply test_congr (σ := id) (fun _ => rfl) hid
  rw [rankSum_perm _ hranking, rankSum_perm _ hranking]

theorem test_neg : test (ds.map (-·)) = test ds := by
  have hranking := ranking_perm abs_neg (List.Perm.refl (ds.map (-·)))
  apply test_congr abs_neg (List.Perm.refl _)
  rw [rankSum_perm _ hranking, rankSum_perm _ hranking, rankSum_neg, rankSum_neg, min_comm]
  rfl

theorem pValue_test_mem_Icc (ds : List ℚ) : (test ds).pValue ∈ Set.Icc (0 : ℚ) 1 := by
  rw [test_eq]
  split_ifs
  · exact ⟨zero_le_one, le_rfl⟩
  · exact clampUnit_mem_Icc _

end Verdict

/-- Each difference that counts has one rank, whatever ties there are; the ranks of the two signs
make up the sum of all, the smaller part is at most half of it, and the variance is positive, so
that a verdict is always reached from it. The verdict is a probability, and neither another order of
the differences nor the opposite sign on all of them changes it. -/
theorem signed_ranks_balance [Transcendental ℚ] [NormalLaw ℚ] (differences : List ℚ) :
    let significant := differences.filter fun d => Scalar.tolerance < |d|
    let n := significant.length
    let ranked := ranking differences
    let smaller := min (rankSum true ranked) (rankSum false ranked)
    (∀ g ∈ groups (byMagnitude (counted differences)), g ≠ []) ∧
    (ranked.map (·.difference)).Perm significant ∧
    rankSum true ranked + rankSum false ranked = n * (n + 1) / 2 ∧
    smaller ≤ meanSum n ∧
    (1 ≤ n → 0 < spread differences) ∧
    test differences = (if n = 0 then ⟨1, 0⟩ else verdict n smaller (spread differences)) ∧
    (test differences).pValue ∈ Set.Icc (0 : ℚ) 1 ∧
    (∀ reordered, reordered.Perm differences → test reordered = test differences) ∧
    test (differences.map (-·)) = test differences := by
  intro significant n ranked smaller
  have hsignificant : counted differences = significant := by
    simp only [counted, Scalar.magnitude_rat, significant]
  have hn : (counted differences).length = n := congrArg List.length hsignificant
  have hsum : rankSum true ranked + rankSum false ranked = n * (n + 1) / 2 := hn ▸ rankSum_ranking
  refine ⟨fun g => ne_nil_of_mem_groups, ?_, hsum, ?_, fun h => spread_pos (hn ▸ h),
    hn ▸ test_eq differences, pValue_test_mem_Icc differences, fun _ => test_perm, test_neg⟩
  · rw [map_difference_ranking, ← hsignificant]
    exact byMagnitude_perm _
  · have hplus : smaller ≤ rankSum true ranked := min_le_left _ _
    have hminus : smaller ≤ rankSum false ranked := min_le_right _ _
    simp only [meanSum, Scalar.one_rat, Nat.cast_ofNat]
    linarith

/-- Two that tie with opposite signs, one larger and one that does not count. -/
theorem signed_ranks_balance_of_tied :
    letI : Transcendental ℚ := ⟨id, id, id, id⟩
    letI : NormalLaw ℚ := ⟨id⟩
    let differences : List ℚ := [2, -1, 0, 1]
    let reordered : List ℚ := [1, 0, -1, 2]
    let n := (differences.filter fun d => Scalar.tolerance < |d|).length
    1 ≤ n ∧ reordered.Perm differences ∧
    rankSum true (ranking differences) + rankSum false (ranking differences) = n * (n + 1) / 2 ∧
    0 < spread differences ∧ (test differences).pValue ∈ Set.Icc (0 : ℚ) 1 ∧
    test reordered = test differences ∧ test (differences.map (-·)) = test differences := by
  intro differences reordered n
  have hn : 1 ≤ n := by decide +kernel
  have hreordered : reordered.Perm differences := by decide
  obtain ⟨-, -, hsum, -, hspread, -, hp, hperm, hneg⟩ :=
    @signed_ranks_balance ⟨id, id, id, id⟩ ⟨id⟩ differences
  exact ⟨hn, hreordered, hsum, hspread hn, hp, hperm reordered hreordered, hneg⟩

end Qubo.Statistics.SignedRank

import Mathlib.Tactic
import Qubo.Proofs.Search.Dense
import Qubo.Proofs.Search.Run

/-! A dense search in ranges. Ranges that follow one another are as good as a single one, so neither
the size of the tiles nor the cuts that a caller makes by hand can be seen in what is found. -/
namespace Qubo.Search

theorem span_append {a b c : ℕ} (hab : a ≤ b) (hbc : b ≤ c) :
    span (a, b) ++ span (b, c) = span (a, c) := by
  have hjoin := List.range'_append_1 (s := a) (m := b - a) (n := c - b)
  rw [Nat.add_sub_cancel' hab, show b - a + (c - b) = c - a by omega] at hjoin
  exact hjoin

theorem span_eq_nil {a b : ℕ} (h : b ≤ a) : span (a, b) = [] := by
  rw [span, Nat.sub_eq_zero_of_le h, List.range'_zero]

/-- Ranges that, clipped to a bound, lead without gap or overlap from a position up to the bound.
Those that hold nothing once they are clipped may stand anywhere. -/
inductive Covers (bound : ℕ) : ℕ → List (ℕ × ℕ) → Prop
  | arrived : Covers bound bound []
  | idle {position : ℕ} {r : ℕ × ℕ} {ranges : List (ℕ × ℕ)} :
      min r.2 bound ≤ r.1 → Covers bound position ranges → Covers bound position (r :: ranges)
  | onward {r : ℕ × ℕ} {ranges : List (ℕ × ℕ)} :
      r.1 < min r.2 bound → Covers bound (min r.2 bound) ranges → Covers bound r.1 (r :: ranges)

theorem Covers.single {bound : ℕ} (h : 0 < bound) : Covers bound 0 [(0, bound)] :=
  .onward (r := (0, bound)) (by simpa using h) (by simpa using .arrived)

theorem Covers.le {bound position : ℕ} {ranges : List (ℕ × ℕ)} (h : Covers bound position ranges) :
    position ≤ bound := by
  induction h with
  | arrived => exact le_rfl
  | idle _ _ ih => exact ih
  | onward h _ _ => exact h.le.trans (min_le_right _ _)

/-- Covering ranges hold every number once, in order. -/
theorem Covers.flatMap_span {bound position : ℕ} {ranges : List (ℕ × ℕ)}
    (h : Covers bound position ranges) :
    ranges.flatMap (fun range => span (range.1, min range.2 bound)) = span (position, bound) := by
  induction h with
  | arrived => simp [span]
  | idle hidle _ ih => rw [List.flatMap_cons, span_eq_nil hidle, List.nil_append, ih]
  | onward hlt hrest ih => rw [List.flatMap_cons, ih, span_append hlt.le hrest.le]

/-- The sum of two words, or the largest word if that is less. -/
def addWithin (a b : UInt64) : UInt64 :=
  if a.toNat + b.toNat < UInt64.size then a + b else .ofNat (UInt64.size - 1)

theorem toNat_addWithin (a b : UInt64) :
    (addWithin a b).toNat = min (a.toNat + b.toNat) (UInt64.size - 1) := by
  unfold addWithin
  split
  next h =>
    rw [UInt64.toNat_add, min_eq_left (Nat.le_sub_one_of_lt h)]
    exact Nat.mod_eq_of_lt h
  next h =>
    rw [UInt64.toNat_ofNat_of_lt' (by decide), min_eq_right (by omega)]

theorem toNat_min_word (a b : UInt64) : (min a b).toNat = min a.toNat b.toNat := by
  show (if a ≤ b then a else b).toNat = _
  split
  next h => exact (min_eq_left (UInt64.le_iff_toNat_le.mp h)).symm
  next h => exact (min_eq_right (UInt64.lt_iff_toNat_lt.mp (UInt64.not_le.mp h)).le).symm

theorem toNat_max_word (a b : UInt64) : (max a b).toNat = max a.toNat b.toNat := by
  show (if a ≤ b then b else a).toNat = _
  split
  next h => exact (max_eq_right (UInt64.le_iff_toNat_le.mp h)).symm
  next h => exact (max_eq_left (UInt64.lt_iff_toNat_lt.mp (UInt64.not_le.mp h)).le).symm

namespace Session
variable {F : Family} {α : Type} [Scalar α] [Enumerable F α]

/-- A search of regions that are given by hand. -/
def searchOver (regions : List F.Region) (s : Session F α) : Except SolverError (Session F α) := do
  let s ← s.initSearch
  let s ← regions.foldlM (fun s region => s.searchRange region) s
  s.finSearch

/-- Regions given by hand publish the tally of all that they hold. -/
theorem searchOver_eq {s : Session F α} {p : F.Problem} (hp : s.problem = some p)
    (regions : List F.Region) : s.searchOver regions = finSearch { s with
      tally := some (Tally.empty.offerAll s.cap
        (regions.flatMap (Enumerable.candidates p))) } := by
  have hrun := foldlM_searchRange (s := { s with tally := some .empty }) hp rfl regions
  rw [searchOver, initSearch_eq_ok hp]
  exact congrArg (· >>= finSearch) hrun

end Session

section
variable {α : Type} [Scalar α]

/-- The loop of a search from one position to the bound: in each turn the range of a tile is
searched, whose end is the next position. The sessions are those before and after the loop. -/
inductive Walks (bound tile : UInt64) : UInt64 → DenseSession α → DenseSession α → Prop
  | arrived {position : UInt64} {s : DenseSession α} :
      bound ≤ position → Walks bound tile position s s
  | turn {position stop : UInt64} {s s' t : DenseSession α} :
      position < bound → stop = min (addWithin position tile) bound →
      s.searchRange (position.toNat, stop.toNat) = .ok s' → Walks bound tile stop s' t →
      Walks bound tile position s t

theorem denseCandidates_append (w : Matrix α) {a b c : ℕ} (hab : a ≤ b) (hbc : b ≤ c)
    (hc : c ≤ Bits.count w.rows) :
    denseCandidates w (a, b) ++ denseCandidates w (b, c) = denseCandidates w (a, c) := by
  rw [candidates_dense (hbc.trans hc), candidates_dense hc, candidates_dense hc, ← List.map_append,
    span_append hab hbc]

theorem Covers.flatMap_candidates {w : Matrix α} {position : ℕ} {ranges : List (ℕ × ℕ)}
    (h : Covers (Bits.count w.rows) position ranges) :
    ranges.flatMap (denseCandidates w) = denseCandidates w (position, Bits.count w.rows) := by
  rw [candidates_dense le_rfl, ← h.flatMap_span, List.map_flatMap]
  rfl

/-- A search meets what a single range over the whole space holds. -/
theorem visited_eq_candidates {w : Matrix α} {tile : ℕ} (htile : 0 < tile) :
    visited (F := denseFamily α) w tile = denseCandidates w (0, Bits.count w.rows) := by
  rw [visited_dense w htile, candidates_dense le_rfl, List.range_eq_range', Bits.count_eq]
  rfl

/-- The loop ends, whatever the size of the tiles: each turn leaves less to be searched. -/
theorem walks {w : Matrix α} {bound tile : UInt64} (hbound : bound.toNat = Bits.count w.rows)
    (htile : 0 < tile) {s : DenseSession α} {t : Tally ℕ α} (hp : s.problem = some w)
    (ht : s.tally = some t) (position : UInt64) :
    Walks bound tile position s { s with
      tally := some (t.offerAll s.cap (denseCandidates w (position.toNat, bound.toNat))) } := by
  induction hleft : bound.toNat - position.toNat using Nat.strong_induction_on
    generalizing position s t with
  | _ left ih =>
    subst hleft
    by_cases hlt : position < bound
    · have hposition := UInt64.lt_iff_toNat_lt.mp hlt
      have hwide := UInt64.lt_iff_toNat_lt.mp htile
      have hword := bound.toNat_lt_size
      have hstop : (min (addWithin position tile) bound).toNat =
          min (position.toNat + tile.toNat) bound.toNat := by
        rw [toNat_min_word, toNat_addWithin]
        omega
      have honward : position.toNat < (min (addWithin position tile) bound).toNat := by
        rw [hstop]
        exact lt_min (Nat.lt_add_of_pos_right hwide) hposition
      have hle : (min (addWithin position tile) bound).toNat ≤ bound.toNat :=
        hstop ▸ min_le_right _ _
      refine .turn hlt rfl (Session.searchRange_eq_ok hp ht _) ?_
      rw [← denseCandidates_append w honward.le hle hbound.le, Tally.offerAll_append]
      exact ih _ (by omega) (s := { s with tally := some _ }) hp rfl _ rfl
    · have hover := UInt64.le_iff_toNat_le.mp (UInt64.not_lt.mp hlt)
      have hnone : denseCandidates w (position.toNat, bound.toNat) = [] := by
        rw [candidates_dense hbound.le, span_eq_nil hover, List.map_nil]
      have hsame : { s with tally := some (t.offerAll s.cap []) } = s := by
        show { s with tally := some t } = s
        rw [← ht]
      rw [hnone, hsame]
      exact .arrived (UInt64.not_lt.mp hlt)

/-- Ranges that lead through the whole space find what a search in tiles finds. -/
theorem DenseSession.searchOver_eq_search {s : DenseSession α} {w : Matrix α}
    (hp : s.problem = some w) (htile : 0 < s.tile) {ranges : List (ℕ × ℕ)}
    (h : Covers (Bits.count w.rows) 0 ranges) : s.searchOver ranges = s.search := by
  rw [Session.searchOver_eq hp, Session.search_eq hp, visited_eq_candidates htile]
  show Session.finSearch { s with tally := some (Tally.empty.offerAll s.cap
    (ranges.flatMap (denseCandidates w))) } = _
  rw [h.flatMap_candidates]

/-- However large the tiles of a search are, the loop over them ends, and what it finds is what a
single range over the whole space finds, or any ranges that lead through it from end to end. -/
theorem DenseSession.search_hides_tiles {s loaded : DenseSession α} {w : Matrix α} {d : Direction}
    (hloaded : s.setProblem w d = .ok loaded) (tile : UInt64) (cap : ℕ) :
    let ready := (loaded.setTile tile.toNat).setCap cap
    ∃ opened walked found : DenseSession α,
      ready.initSearch = .ok opened ∧
      Walks (.ofNat (2 ^ w.rows)) (max tile 1) 0 opened walked ∧
      walked.finSearch = .ok found ∧ ready.search = .ok found ∧
      ready.searchOver [(0, 2 ^ w.rows)] = .ok found ∧
      ∀ ranges, Covers (2 ^ w.rows) 0 ranges → ready.searchOver ranges = .ok found := by
  intro ready
  obtain ⟨_, hcheck, hs⟩ := Result.bind_eq_ok_iff.mp hloaded
  obtain rfl := Except.ok.inj hs
  have hn : w.rows ≤ Bits.maxPacked := (check_dense_iff.mp hcheck).2
  have hp : ready.problem = some (d.sign w) := rfl
  have htile : 0 < ready.tile := lt_max_of_lt_right one_pos
  have hcount : 2 ^ w.rows = Bits.count (d.sign w).rows := by rw [Bits.count_eq, w.rows_sign]
  have hword : (UInt64.ofNat (2 ^ w.rows)).toNat = Bits.count (d.sign w).rows := by
    rw [← hcount]
    exact UInt64.toNat_ofNat_of_lt' ((Nat.pow_le_pow_right (by decide) hn).trans_lt (by decide))
  have hwide : 0 < max tile 1 := by
    rw [UInt64.lt_iff_toNat_lt, toNat_max_word]
    exact lt_max_of_lt_right one_pos
  have hwalk := walks hword hwide (s := { ready with tally := some .empty }) hp rfl 0
  have hfound := Session.search_eq_ok hp
  have hover (ranges : List (ℕ × ℕ)) (h : Covers (2 ^ w.rows) 0 ranges) :
      ready.searchOver ranges = ready.search := searchOver_eq_search hp htile (hcount ▸ h)
  refine ⟨_, _, _, Session.initSearch_eq_ok hp, hwalk, ?_, hfound,
    (hover _ (Covers.single (by positivity))).trans hfound,
    fun ranges h => (hover ranges h).trans hfound⟩
  rw [visited_eq_candidates htile, ← hword]
  exact Session.finSearch_eq hp rfl

/-- Tiles of no length, or so long that the end of the first passes the largest word, in floats; and
four assignments in ranges that overlap nowhere once they are clipped. -/
theorem DenseSession.search_hides_tiles_of_floats :
    let w : Matrix Float := .generate 2 2 fun r c => if r = c then 1 else -2
    let ranges := [(7, 3), (0, 1), (1, 9)]
    Covers (2 ^ w.rows) 0 ranges ∧ ∃ loaded : DenseSession Float,
      DenseSession.new.setProblem w .maximize = .ok loaded ∧
      ∀ tile ∈ [0, (UInt64.ofNat (UInt64.size - 1))],
        let ready := (loaded.setTile tile.toNat).setCap 3
        ∃ opened walked found : DenseSession Float,
          ready.initSearch = .ok opened ∧
          Walks (.ofNat (2 ^ w.rows)) (max tile 1) 0 opened walked ∧
          walked.finSearch = .ok found ∧ ready.search = .ok found ∧
          ready.searchOver [(0, 2 ^ w.rows)] = .ok found ∧ ready.searchOver ranges = .ok found := by
  intro w ranges
  have hranges : Covers (2 ^ w.rows) 0 ranges :=
    .idle (by decide) (.onward (r := (0, 1)) (by decide)
      (.onward (r := (1, 9)) (by decide) .arrived))
  have hcheck : Enumerable.check (F := denseFamily Float) w = .ok () :=
    check_dense_iff.mpr ⟨by decide +kernel, by decide⟩
  have hloaded := Session.setProblem_eq_ok hcheck .maximize DenseSession.new
  refine ⟨hranges, _, hloaded, fun tile _ => ?_⟩
  obtain ⟨opened, walked, found, hopened, hwalk, hfin, hsearch, hsingle, hcovers⟩ :=
    DenseSession.search_hides_tiles hloaded tile 3
  exact ⟨opened, walked, found, hopened, hwalk, hfin, hsearch, hsingle, hcovers ranges hranges⟩

end

end Qubo.Search

import Mathlib.Tactic
import Qubo.Proofs.Search.Bipartite
import Qubo.Proofs.Search.Dense
import Qubo.Proofs.Search.Run

/-! A search that is fed by hand. It keeps assignments in the order in which it met them. Nothing
looks whether one was met before, and a cap keeps others out but takes none away: what is listed is
a part of what was met, no more than the largest cap allowed at the time. -/
namespace Qubo.Search

/-- What a search lists that has met assignments packed in the words `met`, in this order, while
the caps `caps` were in force. -/
structure ListsMet {σ κ : Type} (space : σ → Prop) (unpack : κ → σ) (met : List κ)
    (caps : List ℕ) (solutions : List σ) : Prop where
  fits : ∀ x ∈ solutions, space x
  sublist : solutions.Sublist (met.map unpack)
  nodup : met.Nodup → solutions.Nodup
  length_le : ∀ bound, (∀ cap ∈ caps, cap ≤ bound) → solutions.length ≤ bound

section
variable {F : Family} {α : Type}

/-- Requests that leave an open search open, on the same problem. -/
def Request.Feeds : Request F α → Prop
  | .searchRange _ | .setCap _ | .setTile _ | .seed _ => True
  | _ => False

/-- The regions that are asked for, in order. -/
def regionsOf (requests : List (Request F α)) : List F.Region :=
  requests.filterMap fun
    | .searchRange region => some region
    | _ => none

/-- The caps in force, of which the first is `cap`, whenever a region is asked for. -/
def capsAt (cap : ℕ) : List (Request F α) → List ℕ
  | [] => []
  | .searchRange _ :: rs => cap :: capsAt cap rs
  | r :: rs => capsAt (r.capAfter cap) rs

variable [Scalar α] [Enumerable F α]

/-- The keys that regions hold, in the order in which a search meets them. -/
def keysOf (p : F.Problem) (regions : List F.Region) : List F.Key :=
  regions.flatMap fun region => (Enumerable.candidates p region).map Prod.fst

namespace Session
variable {s : Session F α} {p : F.Problem} {met : List F.Key} {caps : List ℕ}

/-- An open search of a problem that has met the keys `met` under the caps `caps`. -/
structure Fed (p : F.Problem) (met : List F.Key) (caps : List ℕ) (s : Session F α) : Prop where
  problem : s.problem = some p
  cap_pos : 0 < s.cap
  tally : ∃ t, s.tally = some t ∧ t.ties.toList.Sublist met ∧
    ∀ bound, (∀ cap ∈ caps, cap ≤ bound) → t.ties.size ≤ bound

theorem fed_initSearch {before : List (Request F α)} {d : Direction} (tile : F.Tile)
    (h : loaded before = some (p, d)) :
    let opened := (new tile : Session F α).run (before ++ [.initSearch])
    opened.cap = capInForce before ∧ Fed (Enumerable.signed p d) [] [] opened := by
  intro opened
  have hproblem : ((new tile).run before).problem = some (Enumerable.signed p d) := by
    have hfollows := follows_run_new tile before
    rw [h] at hfollows
    exact hfollows.1
  have hcap : ((new tile).run before).cap = capInForce before := cap_run before
  have hopened : opened = { (new tile).run before with tally := some .empty } := by
    show (new tile).run (before ++ [.initSearch]) = _
    rw [run, List.foldl_append]
    show (step.keep _ (initSearch ((new tile).run before))).1 = _
    rw [initSearch_eq_ok hproblem]
    rfl
  rw [hopened]
  exact ⟨hcap, hproblem, hcap.symm ▸ capInForce_pos before, .empty, rfl, List.Sublist.refl _,
    fun _ _ => Nat.zero_le _⟩

/-- One region more: its keys are met under the cap in force. -/
theorem Fed.searchRange (h : Fed p met caps s) (region : F.Region) :
    Fed p (met ++ (Enumerable.candidates p region).map Prod.fst) (caps ++ [s.cap])
      (s.step (.searchRange region)).1 := by
  obtain ⟨t, ht, hsublist, hsize⟩ := h.tally
  have hstep : (s.step (.searchRange region)).1 =
      { s with tally := some (t.offerAll s.cap (Enumerable.candidates p region)) } := by
    rw [step, searchRange_eq_ok h.problem ht]
    rfl
  rw [hstep]
  refine ⟨h.problem, h.cap_pos, _, rfl, ?_, fun bound hbound => ?_⟩
  · exact (Tally.sublist_ties_offerAll _).trans (hsublist.append_right _)
  · have hcaps := List.forall_mem_append.mp hbound
    exact Tally.size_ties_offerAll h.cap_pos (hcaps.2 s.cap List.mem_cons_self)
      (hsize bound hcaps.1) _

/-- What is fed to a search adds up: the keys that are met, and the caps they are met under. -/
theorem Fed.run {requests : List (Request F α)} (h : Fed p met caps s)
    (hfeeds : ∀ r ∈ requests, r.Feeds) :
    Fed p (met ++ keysOf p (regionsOf requests)) (caps ++ capsAt s.cap requests)
      (s.run requests) := by
  induction requests generalizing s met caps with
  | nil => simpa [keysOf, regionsOf, capsAt, Session.run] using h
  | cons r rs ih =>
    obtain ⟨hr, hrs⟩ := List.forall_mem_cons.mp hfeeds
    cases r with
    | searchRange region =>
      have hrest := ih (h.searchRange region) hrs
      rw [(settings_step _).2, List.append_assoc, List.append_assoc] at hrest
      exact hrest
    | setCap cap =>
      exact ih (s := s.setCap cap) ⟨h.problem, lt_max_of_lt_right one_pos, h.tally⟩ hrs
    | setTile tile => exact ih (s := s.setTile tile) ⟨h.problem, h.cap_pos, h.tally⟩ hrs
    | seed value => exact ih h hrs
    | _ => exact hr.elim

/-- What is listed is a part of what was met, whichever cap is in force at the end. -/
theorem Fed.finSearch (h : Fed p met caps s) {space : F.Solution → Prop}
    {unpack : F.Key → F.Solution} (hunpack : Enumerable.solution p = unpack)
    (hspace : ∀ key, space (unpack key)) (hinj : Set.InjOn unpack {key | key ∈ met}) :
    ∃ found, s.finSearch = .ok found ∧ ListsMet space unpack met caps found.solutions := by
  subst hunpack
  obtain ⟨t, ht, hsublist, hsize⟩ := h.tally
  refine ⟨_, finSearch_eq h.problem ht, ?_, hsublist.map _, fun hmet => ?_, ?_⟩
  · intro x hx
    obtain ⟨key, -, rfl⟩ := List.mem_map.mp hx
    exact hspace key
  · exact (hmet.sublist hsublist).map_on fun key hkey key' hkey' =>
      hinj (hsublist.subset hkey) (hsublist.subset hkey')
  · intro bound hbound
    simpa using hsize bound hbound

end Session
end

theorem lt_of_mem_span {a b bound key : ℕ} (h : key ∈ span (a, min b bound)) : key < bound := by
  obtain ⟨i, hi, rfl⟩ := List.mem_range'.mp h
  omega

/-- The words of ranges, clipped to the words that `n` variables have. -/
def wordsMet (n : ℕ) (ranges : List (ℕ × ℕ)) : List ℕ :=
  ranges.flatMap fun r => span (r.1, min r.2 (2 ^ n))

/-- The pairs of words of rectangles, clipped in the same way. -/
def pairsMet (n0 n1 : ℕ) (rectangles : List ((ℕ × ℕ) × (ℕ × ℕ))) : List (ℕ × ℕ) :=
  rectangles.flatMap fun r => span (r.1.1, min r.1.2 (2 ^ n0)) ×ˢ span (r.2.1, min r.2.2 (2 ^ n1))

section
variable {α : Type} [Scalar α]

theorem keysOf_dense (w : Matrix α) (d : Direction) (ranges : List (ℕ × ℕ)) :
    keysOf (F := denseFamily α) (Enumerable.signed (F := denseFamily α) w d) ranges =
      wordsMet w.rows ranges := by
  refine List.flatMap_congr fun range _ => ?_
  show (denseCandidates (d.sign w) range).map Prod.fst = _
  rw [denseCandidates, List.map_map, Bits.count_eq, w.rows_sign]
  exact List.map_id _

theorem keysOf_bipartite (p : Bipartite.Coefficients α) (d : Direction)
    (rectangles : List ((ℕ × ℕ) × (ℕ × ℕ))) :
    keysOf (F := bipartiteFamily α) (Enumerable.signed (F := bipartiteFamily α) p d) rectangles =
      pairsMet p.b0.length p.b1.length rectangles := by
  refine List.flatMap_congr fun rectangle _ => ?_
  show (bipartiteCandidates (p.signed d) rectangle).map Prod.fst = _
  rw [candidates_bipartite_clipped, List.map_map, Bits.count_eq, Bits.count_eq,
    p.length_b0_signed, p.length_b1_signed]
  exact List.map_id _

theorem lt_of_mem_wordsMet {n key : ℕ} {ranges : List (ℕ × ℕ)} (h : key ∈ wordsMet n ranges) :
    key < 2 ^ n := by
  obtain ⟨range, -, hkey⟩ := List.mem_flatMap.mp h
  exact lt_of_mem_span hkey

theorem lt_of_mem_pairsMet {n0 n1 : ℕ} {key : ℕ × ℕ} {rectangles : List ((ℕ × ℕ) × (ℕ × ℕ))}
    (h : key ∈ pairsMet n0 n1 rectangles) : key.1 < 2 ^ n0 ∧ key.2 < 2 ^ n1 := by
  obtain ⟨rectangle, -, hkey⟩ := List.mem_flatMap.mp h
  obtain ⟨h0, h1⟩ := List.mem_product.mp hkey
  exact ⟨lt_of_mem_span h0, lt_of_mem_span h1⟩

/-- A dense search that is fed by hand. -/
theorem DenseSession.fed_lists {before feeding : List (Request (denseFamily α) α)}
    {w : Matrix α} {d : Direction} (hloaded : loaded before = some (w, d))
    (hfeeds : ∀ r ∈ feeding, r.Feeds) :
    ∃ found, ((DenseSession.new.run (before ++ [.initSearch])).run feeding).finSearch = .ok found ∧
      ListsMet (Bits.Assigns w.rows) (Bits.ofPacked · w.rows)
        (wordsMet w.rows (regionsOf feeding)) (capsAt (capInForce before) feeding)
        found.solutions := by
  have hn : w.rows ≤ Bits.maxPacked := (check_dense_iff.mp (check_of_loaded hloaded)).2
  obtain ⟨hcap, hopened⟩ := Session.fed_initSearch (F := denseFamily α) 1024 hloaded
  have hfed := hopened.run hfeeds
  rw [List.nil_append, List.nil_append, hcap, keysOf_dense] at hfed
  exact hfed.finSearch (solution_dense w d) (fun key => Bits.assigns_ofPacked key w.rows)
    fun key hkey key' hkey' =>
      Bits.ofPacked_injOn hn (lt_of_mem_wordsMet hkey) (lt_of_mem_wordsMet hkey')

/-- A bipartite search that is fed by hand. -/
theorem BipartiteSession.fed_lists {before feeding : List (Request (bipartiteFamily α) α)}
    {p : Bipartite.Coefficients α} {d : Direction} (hloaded : loaded before = some (p, d))
    (hfeeds : ∀ r ∈ feeding, r.Feeds) :
    ∃ found,
      ((BipartiteSession.new.run (before ++ [.initSearch])).run feeding).finSearch = .ok found ∧
      ListsMet (BitsPair.Assigns p.b0.length p.b1.length) (unpackPair p.b0.length p.b1.length)
        (pairsMet p.b0.length p.b1.length (regionsOf feeding)) (capsAt (capInForce before) feeding)
        found.solutions := by
  obtain ⟨-, hn0, hn1⟩ := check_bipartite_iff.mp (check_of_loaded hloaded)
  obtain ⟨hcap, hopened⟩ := Session.fed_initSearch (F := bipartiteFamily α) (256, 256) hloaded
  have hfed := hopened.run hfeeds
  rw [List.nil_append, List.nil_append, hcap, keysOf_bipartite] at hfed
  exact hfed.finSearch (solution_bipartite p d)
    (fun key => ⟨Bits.assigns_ofPacked key.1 _, Bits.assigns_ofPacked key.2 _⟩)
    fun key hkey key' hkey' =>
      unpackPair_injOn hn0 hn1 (lt_of_mem_pairsMet hkey) (lt_of_mem_pairsMet hkey')

end

/-- Whatever an open search is fed, in ranges that overlap, are repeated, run backwards or lie
outside the space, and under whatever caps, it can be closed. What it lists are assignments of the
problem's size that it has met, in the order in which it met them, so that nothing is listed twice
that was not met twice. They are no more than the largest cap that was in force at any range. -/
theorem fed_searches_list_what_they_meet (α : Type) [Scalar α] :
    (∀ (before feeding : List (Request (denseFamily α) α)) (w : Matrix α) (d : Direction),
      loaded before = some (w, d) → (∀ r ∈ feeding, r.Feeds) →
      ∃ found,
        ((DenseSession.new.run (before ++ [.initSearch])).run feeding).finSearch = .ok found ∧
        ListsMet (Bits.Assigns w.rows) (Bits.ofPacked · w.rows)
          (wordsMet w.rows (regionsOf feeding)) (capsAt (capInForce before) feeding)
          found.solutions) ∧
    (∀ (before feeding : List (Request (bipartiteFamily α) α)) (p : Bipartite.Coefficients α)
      (d : Direction), loaded before = some (p, d) → (∀ r ∈ feeding, r.Feeds) →
      ∃ found,
        ((BipartiteSession.new.run (before ++ [.initSearch])).run feeding).finSearch = .ok found ∧
        ListsMet (BitsPair.Assigns p.b0.length p.b1.length) (unpackPair p.b0.length p.b1.length)
          (pairsMet p.b0.length p.b1.length (regionsOf feeding))
          (capsAt (capInForce before) feeding) found.solutions) :=
  ⟨fun _ _ _ _ hloaded hfeeds => DenseSession.fed_lists hloaded hfeeds,
    fun _ _ _ _ hloaded hfeeds => BipartiteSession.fed_lists hloaded hfeeds⟩

/-- Two dense ranges that overlap nowhere, with the cap lowered between them, and a rectangle that
lies outside its space for the most part. -/
theorem fed_searches_list_what_they_meet_of_halves :
    let w : Matrix ℚ := .generate 2 2 fun r c => if r = c then 1 else -2
    let dense : List (Request (denseFamily ℚ) ℚ) := [.setProblem w .maximize]
    let ranges : List (Request (denseFamily ℚ) ℚ) :=
      [.searchRange (2, 9), .setCap 0, .searchRange (0, 2)]
    let p : Bipartite.Coefficients ℚ := ⟨[1], [-1], .generate 1 1 fun _ _ => 2⟩
    let bipartite : List (Request (bipartiteFamily ℚ) ℚ) := [.setProblem p .minimize]
    let rectangle : List (Request (bipartiteFamily ℚ) ℚ) := [.searchRange ((1, 7), (0, 9))]
    (loaded dense = some (w, .maximize) ∧ (∀ r ∈ ranges, r.Feeds) ∧
      ∃ found, ((DenseSession.new.run (dense ++ [.initSearch])).run ranges).finSearch = .ok found ∧
        found.solutions.Sublist ([2, 3, 0, 1].map (Bits.ofPacked · 2)) ∧
        found.solutions.Nodup ∧ found.solutions.length ≤ 1024) ∧
    loaded bipartite = some (p, .minimize) ∧ (∀ r ∈ rectangle, r.Feeds) ∧
      ∃ found, ((BipartiteSession.new.run (bipartite ++ [.initSearch])).run
          rectangle).finSearch = .ok found ∧
        found.solutions.Sublist ([(1, 0), (1, 1)].map (unpackPair 1 1)) ∧
        found.solutions.Nodup ∧ found.solutions.length ≤ 1024 := by
  intro w dense ranges p bipartite rectangle
  have hw : loaded dense = some (w, .maximize) := loaded_setProblem
    (check_dense_iff.mpr ⟨Dense.check_of_isMirrored (by decide), by decide⟩) _ []
  have hp : loaded bipartite = some (p, .minimize) := loaded_setProblem
    (check_bipartite_iff.mpr
      ⟨Bipartite.Coefficients.check_eq_ok_iff.mpr (by decide), by decide, by decide⟩) _ []
  have hranges : ∀ r ∈ ranges, r.Feeds := by simp [ranges, Request.Feeds]
  have hrectangle : ∀ r ∈ rectangle, r.Feeds := by simp [rectangle, Request.Feeds]
  obtain ⟨hdense, hbipartite⟩ := fed_searches_list_what_they_meet ℚ
  obtain ⟨found, hfound, hlists⟩ := hdense dense ranges w .maximize hw hranges
  obtain ⟨found', hfound', hlists'⟩ := hbipartite bipartite rectangle p .minimize hp hrectangle
  refine ⟨⟨hw, hranges, found, hfound, hlists.sublist, hlists.nodup ?_,
    hlists.length_le 1024 ?_⟩, hp, hrectangle, found', hfound', hlists'.sublist,
    hlists'.nodup ?_, hlists'.length_le 1024 ?_⟩
  · show [2, 3, 0, 1].Nodup
    decide
  · show ∀ cap ∈ [1024, 1], cap ≤ 1024
    decide
  · show [(1, 0), (1, 1)].Nodup
    decide
  · show ∀ cap ∈ [1024], cap ≤ 1024
    decide

/-- What is met twice is listed twice, and a cap that is lowered afterwards takes nothing away. -/
theorem fed_searches_list_twice_what_they_meet_twice :
    let w : Matrix ℚ := .generate 1 1 fun _ _ => 0
    let before : List (Request (denseFamily ℚ) ℚ) := [.setProblem w .minimize]
    let feeding : List (Request (denseFamily ℚ) ℚ) :=
      [.searchRange (0, 2), .searchRange (0, 2), .setCap 1]
    loaded before = some (w, .minimize) ∧ (∀ r ∈ feeding, r.Feeds) ∧
    ∃ found : DenseSession ℚ,
      ((DenseSession.new.run (before ++ [.initSearch])).run feeding).finSearch = .ok found ∧
      found.cap = 1 ∧ found.solutions = [0, 1, 0, 1].map (Bits.ofPacked · 1) ∧
      ¬found.solutions.Nodup ∧ found.cap < found.solutions.length := by
  intro w before feeding
  have hcheck : Enumerable.check (F := denseFamily ℚ) w = .ok () :=
    check_dense_iff.mpr ⟨Dense.check_of_isMirrored (by decide), by decide⟩
  have hloaded : loaded before = some (w, .minimize) := loaded_setProblem hcheck _ []
  have hfeeds : ∀ r ∈ feeding, r.Feeds := by simp [feeding, Request.Feeds]
  have hrun : ((DenseSession.new.run (before ++ [.initSearch])).run
      feeding).finSearch.toOption.map (fun found => (found.cap, found.solutions)) =
        some (1, [0, 1, 0, 1].map (Bits.ofPacked · 1)) := by decide +kernel
  obtain ⟨found, hfound, -⟩ := DenseSession.fed_lists hloaded hfeeds
  rw [hfound] at hrun
  obtain ⟨hcap, hsolutions⟩ := Prod.mk.inj (Option.some.inj hrun)
  refine ⟨hloaded, hfeeds, found, hfound, hcap, hsolutions, ?_, ?_⟩
  · rw [hsolutions]
    decide
  · rw [hcap, hsolutions]
    decide

end Qubo.Search

import Mathlib.Tactic
import Qubo.Proofs.Search.Bipartite
import Qubo.Proofs.Search.Run

/-! A bipartite search in tiles. The size of the tiles decides in which order the pairs are met, and
with that which of several energies within the tolerance of one another is kept. What no order can
change is what the optimum is, that every optimum is listed, and that nothing far from it is. -/
namespace Qubo.Search
namespace Tally
variable {κ : Type} {cap : ℕ} {seen : List (κ × ℚ)} {t : Tally κ ℚ} {least : ℚ}

/-- A tally that has never run out of room holds every candidate that is not above the energy it
keeps, also those it met before that energy. -/
structure Gathers (cap : ℕ) (seen : List (κ × ℚ)) (t : Tally κ ℚ) (least : ℚ) : Prop
    extends Summary cap seen t least where
  gathered : ∀ c ∈ seen, c.2 ≤ least → c.1 ∈ t.ties.toList

theorem gathers_single (hcap : 0 < cap) (seen : List (κ × ℚ)) (key : κ) (e : ℚ)
    (hlow : ∀ c ∈ seen, e < c.2) :
    Gathers cap (seen ++ [(key, e)]) ⟨some e, #[key]⟩ e where
  toSummary := summary_single hcap seen key e hlow
  gathered := by
    intro c hc hle
    rcases List.mem_append.mp hc with hc | hc
    · exact absurd hle (not_le.mpr (hlow c hc))
    · obtain rfl : c = (key, e) := by simpa using hc
      simp

theorem Gathers.offer (h : Gathers cap seen t least) (hroom : seen.length < cap) (c : κ × ℚ) :
    ∃ least', Gathers cap (seen ++ [c]) (t.offer cap c) least' := by
  obtain ⟨key, e⟩ := c
  have hsize : t.ties.size < cap := by
    have hle := h.sublist.length_le
    rw [Array.length_toList, List.length_map] at hle
    omega
  rw [offer_of_least_eq h.least_eq]
  split_ifs with hlow hjoin
  · exact ⟨e, gathers_single (by omega) seen key e fun c hc => hlow.trans_le (h.below c hc)⟩
  · refine ⟨least, h.push key hjoin.1 hjoin.2, fun c hc hle => ?_⟩
    rw [Array.toList_push, List.mem_append]
    rcases List.mem_append.mp hc with hc | hc
    · exact Or.inl (h.gathered c hc hle)
    · obtain rfl : c = (key, e) := by simpa using hc
      exact Or.inr (by simp)
  · refine ⟨least, h.pass key (not_lt.mp hlow) hjoin, fun c hc hle => ?_⟩
    rcases List.mem_append.mp hc with hc | hc
    · exact h.gathered c hc hle
    · -- There is room, so only its energy can have kept the candidate out.
      obtain rfl : c = (key, e) := by simpa using hc
      have hnear : |e - least| ≤ Scalar.tolerance := by
        rw [abs_of_nonpos (sub_nonpos.mpr hle)]
        linarith
      exact absurd ⟨hnear, hsize⟩ hjoin

theorem Gathers.offerAll (h : Gathers cap seen t least) {cs : List (κ × ℚ)}
    (hroom : seen.length + cs.length ≤ cap) :
    ∃ least', Gathers cap (seen ++ cs) (t.offerAll cap cs) least' := by
  induction cs generalizing seen t least with
  | nil => exact ⟨least, by simpa [Tally.offerAll] using h⟩
  | cons c cs ih =>
    rw [List.length_cons] at hroom
    obtain ⟨least', h'⟩ := h.offer (by omega) c
    have hs := ih h' (by rw [List.length_append, List.length_singleton]; omega)
    rwa [List.append_assoc, List.singleton_append] at hs

/-- A tally with room for all the candidates it is offered gathers them. -/
theorem gathers_offerAll {cs : List (κ × ℚ)} (hcs : cs ≠ []) (hroom : cs.length ≤ cap) :
    ∃ least, Gathers cap cs (empty.offerAll cap cs) least := by
  obtain ⟨c, cs, rfl⟩ := List.exists_cons_of_ne_nil hcs
  rw [List.length_cons] at hroom
  exact (gathers_single (by omega) [] c.1 c.2 (by simp)).offerAll
    (by rw [List.nil_append, List.length_singleton]; omega)

end Tally

section
variable {σ : Type} {d : Direction} {space : σ → Prop} {energy : σ → Except SolverError ℚ}
  {cap cap' : ℕ} {energies energies' : List ℚ} {solutions solutions' : List σ}
  {reported reported' optimum : ℚ}

/-- A list that leaves out nothing as good as the energy it reports. -/
structure ListsAll (d : Direction) (space : σ → Prop) (energy : σ → Except SolverError ℚ)
    (cap : ℕ) (energies : List ℚ) (solutions : List σ) (reported optimum : ℚ) : Prop
    extends Lists d space energy cap energies solutions reported optimum where
  gathered : ∀ x e, space x → energy x = .ok e → d.sign e ≤ d.sign reported → x ∈ solutions

/-- Every optimum is listed, and if the optimum is isolated then nothing else is. -/
theorem ListsAll.mem_iff
    (h : ListsAll d space energy cap energies solutions reported optimum)
    (hfar : Isolated space energy optimum) (x : σ) :
    x ∈ solutions ↔ space x ∧ energy x = .ok optimum :=
  ⟨h.energy_eq hfar, fun ⟨hx, he⟩ => h.gathered x optimum hx he h.not_better⟩

theorem IsOptimum.eq {optimum' : ℚ} (h : IsOptimum d space energy optimum)
    (h' : IsOptimum d space energy optimum') : optimum = optimum' := by
  obtain ⟨x, hx, he⟩ := h.reached
  obtain ⟨x', hx', he'⟩ := h'.reached
  have heq : d.sign optimum = d.sign optimum' :=
    le_antisymm (h.unbeaten x' optimum' hx' he') (h'.unbeaten x optimum hx he)
  simpa using congrArg d.sign heq

theorem Lists.reported_mem
    (h : Lists d space energy cap energies solutions reported optimum) : reported ∈ energies := by
  obtain ⟨x, rest, hsolutions, -⟩ := h.head
  rw [h.energies_eq, hsolutions]
  exact List.mem_cons_self

/-- Two lists of one space report energies within the tolerance of each other. -/
theorem Lists.abs_sub_le
    (h : Lists d space energy cap energies solutions reported optimum)
    (h' : Lists d space energy cap' energies' solutions' reported' optimum) :
    |reported - reported'| ≤ Scalar.tolerance := by
  rw [← d.abs_sign, d.sign_sub, abs_le]
  constructor
  · linarith [h.not_better, h'.close]
  · linarith [h.close, h'.not_better]

/-- Among energies that are whole numbers the optimum is isolated. -/
theorem IsOptimum.isolated_of_integral (h : IsOptimum d space energy optimum)
    (hwhole : ∀ x e, space x → energy x = .ok e → ∃ z : ℤ, e = z) :
    Isolated space energy optimum := by
  obtain ⟨y, hy, hoptimum⟩ := h.reached
  obtain ⟨best, rfl⟩ := hwhole y optimum hy hoptimum
  intro x e hx he hne
  obtain ⟨z, rfl⟩ := hwhole x e hx he
  have hapart : (1 : ℚ) ≤ |(z : ℚ) - best| := by
    have hdiffer : z - best ≠ 0 := sub_ne_zero.mpr fun heq => hne (by rw [heq])
    exact_mod_cast Int.one_le_abs hdiffer
  exact lt_of_lt_of_le (by decide +kernel) hapart

/-- Two lists of one space that leave nothing out are the same but for the order if the optimum is
isolated. -/
theorem ListsAll.perm
    (h : ListsAll d space energy cap energies solutions reported optimum)
    (h' : ListsAll d space energy cap' energies' solutions' reported' optimum)
    (hfar : Isolated space energy optimum) :
    energies = energies' ∧ solutions.Perm solutions' := by
  have hperm : solutions.Perm solutions' :=
    (List.perm_ext_iff_of_nodup h.nodup h'.nodup).mpr fun x =>
      (h.mem_iff hfar x).trans (h'.mem_iff hfar x).symm
  refine ⟨?_, hperm⟩
  rw [h.energies_eq, h'.energies_eq, h.reported_eq hfar, h'.reported_eq hfar, hperm.length_eq]

end

/-- A search with room for all it visits lists whatever is not above the energy it reports. -/
theorem Session.search_gathers {F : Family} [Enumerable F ℚ] {s found : Session F ℚ}
    {p : F.Problem} {reported : ℚ} {c : F.Key × ℚ} (hp : s.problem = some p)
    (hroom : (visited p s.tile).length ≤ s.cap) (hfound : s.search = .ok found)
    (hreported : reported ∈ found.energies) (hc : c ∈ visited p s.tile)
    (hle : c.2 ≤ s.direction.sign reported) : Enumerable.solution p c.1 ∈ found.solutions := by
  obtain ⟨least, hgathers⟩ := Tally.gathers_offerAll (List.ne_nil_of_mem hc) hroom
  obtain rfl := Except.ok.inj (hfound.symm.trans (search_eq_ok hp))
  rw [hgathers.least_eq] at hreported
  obtain rfl := List.eq_of_mem_replicate hreported
  rw [Direction.sign_sign] at hle
  exact List.mem_map_of_mem (hgathers.gathered c hc hle)

/-- A search of a loaded bipartite problem with room for all pairs. -/
theorem BipartiteSession.search_lists_all {s : BipartiteSession ℚ} {p : Bipartite.Coefficients ℚ}
    (hproblem : s.problem = some (p.signed s.direction)) (hp : p.check = .ok ())
    (hn0 : p.b0.length ≤ Bits.maxPacked) (hn1 : p.b1.length ≤ Bits.maxPacked)
    (htile0 : 0 < s.tile.1) (htile1 : 0 < s.tile.2)
    (hcap : 2 ^ (p.b0.length + p.b1.length) ≤ s.cap) :
    ∃ (found : BipartiteSession ℚ) (reported optimum : ℚ), s.search = .ok found ∧
      ListsAll s.direction (BitsPair.Assigns p.b0.length p.b1.length) p.energy s.cap
        found.energies found.solutions reported optimum := by
  obtain ⟨found, reported, optimum, hfound, -, hlists⟩ :=
    BipartiteSession.search_lists hproblem hp hn0 hn1 htile0 htile1
      ((Nat.two_pow_pos _).trans_le hcap)
  refine ⟨found, reported, optimum, hfound, hlists, fun x e hx he hle => ?_⟩
  have hvisited := visited_bipartite (p.signed s.direction) s.tile
  rw [p.length_b0_signed, p.length_b1_signed] at hvisited
  have hroom : (visited (F := bipartiteFamily ℚ) (p.signed s.direction) s.tile).length ≤
      s.cap := by
    rw [hvisited, List.length_map, (covered_perm _ _ _ htile0 htile1).length_eq,
      List.length_product, List.length_range, List.length_range, ← pow_add]
    exact hcap
  -- The pair of words that stands for `x` was met with the energy of `x`.
  obtain ⟨key, hlt, hkey⟩ := exists_unpackPair hn0 hn1 hx
  have hmem := (mem_covered _ _ htile0 htile1).mpr hlt
  have henergy := Except.ok.inj (he.symm.trans (hkey ▸ energy_unpackPair hp s.direction key))
  have hlisted := Session.search_gathers hproblem hroom hfound hlists.reported_mem
    (hvisited ▸ List.mem_map_of_mem hmem) (by simpa [henergy] using hle)
  exact hkey ▸ congrFun (solution_bipartite p s.direction) key ▸ hlisted

/-- Two searches of one bipartite problem, in tiles of any two sizes and with room for all pairs,
look for the same optimum. Either list holds every assignment that is as good as the energy it
reports, so every optimum, and the two energies are within the tolerance of each other. If nothing
but the optimum is within the tolerance of it, the searches report the same energies and, but for
the order, the same pairs, the optima. -/
theorem BipartiteSession.search_in_other_tiles (s s' : BipartiteSession ℚ)
    (p : Bipartite.Coefficients ℚ) (d : Direction) (tile tile' : ℕ × ℕ) (cap cap' : ℕ)
    (hp : Enumerable.check (F := bipartiteFamily ℚ) p = .ok ())
    (hcap : 2 ^ (p.b0.length + p.b1.length) ≤ cap)
    (hcap' : 2 ^ (p.b0.length + p.b1.length) ≤ cap') :
    ∃ (loaded loaded' found found' : BipartiteSession ℚ) (reported reported' optimum : ℚ),
      s.setProblem p d = .ok loaded ∧ s'.setProblem p d = .ok loaded' ∧
      ((loaded.setTile tile).setCap cap).search = .ok found ∧
      ((loaded'.setTile tile').setCap cap').search = .ok found' ∧
      ListsAll d (BitsPair.Assigns p.b0.length p.b1.length) p.energy cap found.energies
        found.solutions reported optimum ∧
      ListsAll d (BitsPair.Assigns p.b0.length p.b1.length) p.energy cap' found'.energies
        found'.solutions reported' optimum ∧
      |reported - reported'| ≤ Scalar.tolerance ∧
      (Isolated (BitsPair.Assigns p.b0.length p.b1.length) p.energy optimum →
        reported = optimum ∧ reported' = optimum ∧ found.energies = found'.energies ∧
        found.solutions.Perm found'.solutions ∧
        ∀ x, x ∈ found.solutions ↔
          x.Assigns p.b0.length p.b1.length ∧ p.energy x = .ok optimum) := by
  obtain ⟨hcheck, hn0, hn1⟩ := check_bipartite_iff.mp hp
  have hsearch (s : BipartiteSession ℚ) (tile : ℕ × ℕ) {cap : ℕ}
      (hcap : 2 ^ (p.b0.length + p.b1.length) ≤ cap) :
      ∃ (loaded found : BipartiteSession ℚ) (reported optimum : ℚ),
        s.setProblem p d = .ok loaded ∧ ((loaded.setTile tile).setCap cap).search = .ok found ∧
        ListsAll d (BitsPair.Assigns p.b0.length p.b1.length) p.energy cap found.energies
          found.solutions reported optimum := by
    have hpos : max cap 1 = cap := max_eq_left ((Nat.two_pow_pos _).trans_le hcap)
    obtain ⟨found, reported, optimum, hfound, hlists⟩ :=
      BipartiteSession.search_lists_all (s := Session.setCap cap (Session.setTile tile { s with
        direction := d, problem := some (p.signed d), tally := none })) (p := p) rfl hcheck hn0 hn1
        (lt_max_of_lt_right one_pos) (lt_max_of_lt_right one_pos) (hcap.trans (le_max_left cap 1))
    exact ⟨_, found, reported, optimum, Session.setProblem_eq_ok hp d s, hfound, hpos ▸ hlists⟩
  obtain ⟨loaded, found, reported, optimum, hloaded, hfound, hlists⟩ := hsearch s tile hcap
  obtain ⟨loaded', found', reported', optimum', hloaded', hfound', hlists'⟩ :=
    hsearch s' tile' hcap'
  obtain rfl := hlists.isOptimum.eq hlists'.isOptimum
  refine ⟨loaded, loaded', found, found', reported, reported', optimum, hloaded, hloaded', hfound,
    hfound', hlists, hlists', hlists.abs_sub_le hlists'.toLists, fun hfar => ?_⟩
  obtain ⟨henergies, hperm⟩ := hlists.perm hlists' hfar
  exact ⟨hlists.reported_eq hfar, hlists'.reported_eq hfar, henergies, hperm, hlists.mem_iff hfar⟩

/-- One variable in either layer, with whole energies, in single words and in the tiles of a new
solver. -/
theorem BipartiteSession.search_in_other_tiles_of_whole_energies :
    let p : Bipartite.Coefficients ℚ := ⟨[1], [-1], .generate 1 1 fun _ _ => 2⟩
    Enumerable.check (F := bipartiteFamily ℚ) p = .ok () ∧
    2 ^ (p.b0.length + p.b1.length) ≤ 4 ∧ 2 ^ (p.b0.length + p.b1.length) ≤ 1024 ∧
    ∃ (loaded loaded' found found' : BipartiteSession ℚ) (reported reported' optimum : ℚ),
      BipartiteSession.new.setProblem p .minimize = .ok loaded ∧
      BipartiteSession.new.setProblem p .minimize = .ok loaded' ∧
      ((loaded.setTile ((1, 0) : ℕ × ℕ)).setCap 4).search = .ok found ∧
      ((loaded'.setTile ((256, 256) : ℕ × ℕ)).setCap 1024).search = .ok found' ∧
      ListsAll .minimize (BitsPair.Assigns p.b0.length p.b1.length) p.energy 4 found.energies
        found.solutions reported optimum ∧
      ListsAll .minimize (BitsPair.Assigns p.b0.length p.b1.length) p.energy 1024 found'.energies
        found'.solutions reported' optimum ∧
      found.energies = found'.energies ∧ found.solutions.Perm found'.solutions := by
  intro p
  have hp : Enumerable.check (F := bipartiteFamily ℚ) p = .ok () :=
    check_bipartite_iff.mpr ⟨Bipartite.Coefficients.check_eq_ok_iff.mpr (by decide), by decide,
      by decide⟩
  have hvalue : ∀ key0 < 2, ∀ key1 < 2, p.energy (unpackPair 1 1 (key0, key1)) =
      .ok ((key0 - key1 + 2 * key0 * key1 : ℤ) : ℚ) := by decide +kernel
  have hwhole (x : BitsPair) (e : ℚ) (hx : x.Assigns 1 1) (he : p.energy x = .ok e) :
      ∃ z : ℤ, e = z := by
    obtain ⟨key, hlt, hkey⟩ := exists_unpackPair (by decide) (by decide) hx
    exact ⟨_, Except.ok.inj (he.symm.trans (hkey ▸ hvalue key.1 hlt.1 key.2 hlt.2))⟩
  obtain ⟨loaded, loaded', found, found', reported, reported', optimum, hloaded, hloaded', hfound,
    hfound', hlists, hlists', -, hsame⟩ :=
    BipartiteSession.search_in_other_tiles BipartiteSession.new BipartiteSession.new p .minimize
      (1, 0) (256, 256) 4 1024 hp (by decide) (by decide)
  obtain ⟨-, -, henergies, hperm, -⟩ :=
    hsame (hlists.isOptimum.isolated_of_integral hwhole)
  exact ⟨hp, by decide, by decide, loaded, loaded', found, found', reported, reported', optimum,
    hloaded, hloaded', hfound, hfound', hlists, hlists', henergies, hperm⟩

/-- Three energies of which each is within the tolerance of the next, but the outer two are not:
single words and the tiles of a new solver report different energies and different pairs. -/
theorem BipartiteSession.search_of_chained_energies :
    let p : Bipartite.Coefficients ℚ :=
      ⟨[-15 / 10 ^ 10], [-20 / 10 ^ 10], .generate 1 1 fun _ _ => 27 / 10 ^ 10⟩
    Enumerable.check (F := bipartiteFamily ℚ) p = .ok () ∧
    2 ^ (p.b0.length + p.b1.length) ≤ 4 ∧
    ∃ loaded wide narrow : BipartiteSession ℚ,
      BipartiteSession.new.setProblem p .minimize = .ok loaded ∧
      ((loaded.setTile ((256, 256) : ℕ × ℕ)).setCap 4).search = .ok wide ∧
      ((loaded.setTile ((1, 1) : ℕ × ℕ)).setCap 4).search = .ok narrow ∧
      wide.energies = [-20 / 10 ^ 10, -20 / 10 ^ 10] ∧
      wide.solutions = [unpackPair 1 1 (0, 1), unpackPair 1 1 (1, 0)] ∧
      narrow.energies = [-15 / 10 ^ 10, -15 / 10 ^ 10, -15 / 10 ^ 10] ∧
      narrow.solutions =
        [unpackPair 1 1 (1, 0), unpackPair 1 1 (0, 1), unpackPair 1 1 (1, 1)] := by
  intro p
  have hp : Enumerable.check (F := bipartiteFamily ℚ) p = .ok () :=
    check_bipartite_iff.mpr ⟨Bipartite.Coefficients.check_eq_ok_iff.mpr (by decide), by decide,
      by decide⟩
  refine ⟨hp, by decide, _, _, _, Session.setProblem_eq_ok hp .minimize BipartiteSession.new,
    Session.search_eq_ok rfl, Session.search_eq_ok rfl, ?_⟩
  decide +kernel

end Qubo.Search

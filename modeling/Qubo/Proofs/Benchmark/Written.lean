import Mathlib
import Qubo.Proofs.Benchmark.Accounts
import Qubo.Proofs.Benchmark.Ready
import Qubo.Proofs.Promise

/-! What a run writes: for each round the rows of a trial of all solvers. No run of a configuration
that is ready stops before its last round, on whatever host its solvers are timed. -/
namespace Qubo.Benchmark
variable {α : Type} [Scalar α]

/-- What a solver reports that has succeeded. -/
def Blueprint.result (b : Blueprint α) (outcome : Outcome α) (elapsedMs : α) : SolverResult α where
  solver := b.name
  strategy := b.strategy
  energy := outcome.bestEnergy
  assignment := outcome.best
  candidates := outcome.energies.length
  steps := outcome.steps
  elapsedMs := elapsedMs

variable [Transcendental α]

/-- An attempt of a solver; how long it took is left open. -/
def Attempted (p : ProblemSection) (r : Round α) (b : Blueprint α) (a : Attempt α) : Prop :=
  a.blueprint = b ∧ a.result = (solveRound p r b).1 ∧ a.events = (solveRound p r b).2

/-- The result of a solver in a round, however long it took. -/
def Yields (p : ProblemSection) (r : Round α) (b : Blueprint α) (x : SolverResult α) : Prop :=
  ∃ outcome elapsedMs, (solveRound p r b).1 = .ok outcome ∧ x = b.result outcome elapsedMs

/-- A trial of all solvers in a round. -/
structure IsTrial (c : Config) (bs : List (Blueprint α)) (r : Round α) (t : Trial α) : Prop where
  results : List.Forall₂ (Yields c.problem r) bs t.results
  best : c.problem.direction.best? (t.results.map (·.energy)) = some t.bestKnown

def RunEvent.solverEvent? {α : Type} : RunEvent α → Option (SolverEvent α)
  | .solver e => some e
  | .trial _ => none

def RunEvent.row? {α : Type} : RunEvent α → Option (Row α)
  | .solver _ => none
  | .trial row => some row

/-- A trial for each row, and what the solvers have left in each round. -/
structure Recorded (c : Config) (bs : List (Blueprint α)) (rs : List (Round α))
    (rows : List (Row α)) (events : List (RunEvent α)) : Prop where
  trials : events.filterMap RunEvent.row? = rows
  solvers : events.filterMap RunEvent.solverEvent? =
    rs.flatMap fun r => bs.flatMap fun b => (solveRound c.problem r b).2

/-- The rows of one trial for each round. -/
inductive Written (c : Config) (bs : List (Blueprint α)) : List (Round α) → List (Row α) → Prop
  | nil : Written c bs [] []
  | cons {r : Round α} {rs : List (Round α)} {t : Trial α} {rows : List (Row α)}
      (ht : IsTrial c bs r t) (h : Written c bs rs rows) :
      Written c bs (r :: rs) (t.results.map (Progress.row c r t) ++ rows)

section Trials
variable {c : Config} {bs : List (Blueprint α)} {r : Round α}

theorem Yields.solver_eq {p : ProblemSection} {b : Blueprint α} {x : SolverResult α}
    (h : Yields p r b x) : b.name = x.solver := by
  obtain ⟨outcome, elapsedMs, -, rfl⟩ := h
  rfl

theorem IsTrial.map_solver {t : Trial α} (ht : IsTrial c bs r t) :
    t.results.map (·.solver) = bs.map (·.name) :=
  (Result.map_eq_of_forall₂ ht.results fun _ _ => Yields.solver_eq).symm

theorem Written.exists_row {rs : List (Round α)} {rows : List (Row α)}
    (h : Written c bs rs rows) :
    ∀ row ∈ rows, ∃ r t x, row = Progress.row c r t x := by
  induction h with
  | nil => simp
  | @cons r rs t rows _ _ ih =>
    intro row hrow
    rcases List.mem_append.mp hrow with hrow | hrow
    · obtain ⟨x, -, rfl⟩ := List.mem_map.mp hrow
      exact ⟨r, t, x, rfl⟩
    · exact ih row hrow

theorem Written.exists_trial {rs : List (Round α)} {rows : List (Row α)}
    (h : Written c bs rs rows) :
    ∀ r ∈ rs, ∃ t, IsTrial c bs r t ∧ ∀ x ∈ t.results, Progress.row c r t x ∈ rows := by
  induction h with
  | nil => simp
  | @cons r rs t rows ht _ ih =>
    intro r' hr'
    rcases List.mem_cons.mp hr' with rfl | hr'
    · exact ⟨t, ht, fun x hx => List.mem_append_left _ (List.mem_map_of_mem hx)⟩
    · obtain ⟨t', ht', hrows⟩ := ih r' hr'
      exact ⟨t', ht', fun x hx => List.mem_append_right _ (hrows x hx)⟩

theorem filter_solver_eq_nil {p : ProblemSection} {results : List (SolverResult α)}
    (h : List.Forall₂ (Yields p r) bs results) {solver : String}
    (hsolver : solver ∉ bs.map (·.name)) : (results.filter fun x => x.solver = solver) = [] := by
  apply List.filter_eq_nil_iff.mpr
  intro x hx hmem
  obtain ⟨b, hb, hyields⟩ := Result.exists_mem_of_forall₂ h x hx
  apply hsolver
  rw [← of_decide_eq_true hmem, ← hyields.solver_eq]
  exact List.mem_map_of_mem hb

theorem exists_filter_solver {p : ProblemSection} {results : List (SolverResult α)}
    (h : List.Forall₂ (Yields p r) bs results) (hnodup : (bs.map (·.name)).Nodup)
    {b : Blueprint α} (hb : b ∈ bs) :
    ∃ x, Yields p r b x ∧ (results.filter fun x => x.solver = b.name) = [x] := by
  induction h with
  | nil => cases hb
  | @cons b' x bs results hx hrest ih =>
    obtain ⟨hnew, hnodup⟩ := List.nodup_cons.mp hnodup
    rw [List.filter_cons, ← hx.solver_eq]
    rcases List.mem_cons.mp hb with rfl | hb
    · refine ⟨x, hx, ?_⟩
      rw [if_pos (decide_eq_true rfl), filter_solver_eq_nil hrest hnew]
    · have hne : b'.name ≠ b.name := fun he => hnew (List.mem_map.mpr ⟨b, hb, he.symm⟩)
      rw [if_neg (by simpa using hne)]
      exact ih hnodup hb

theorem exists_results {p : ProblemSection} {attempts : List (Attempt α)}
    (h : List.Forall₂ (Attempted p r) bs attempts)
    (hsolve : ∀ b ∈ bs, ∃ outcome, (solveRound p r b).1 = .ok outcome) :
    ∃ results, attempts.mapM Attempt.result? = .ok results ∧
      List.Forall₂ (Yields p r) bs results := by
  induction h with
  | nil => exact ⟨[], rfl, .nil⟩
  | @cons b a bs attempts ha _ ih =>
    obtain ⟨hb, hbs⟩ := List.forall_mem_cons.mp hsolve
    obtain ⟨results, hresults, hyields⟩ := ih hbs
    obtain ⟨outcome, houtcome⟩ := hb
    obtain ⟨rfl, hresult, -⟩ := ha
    have hattempt : a.result? = .ok (a.blueprint.result outcome a.elapsedMs) :=
      Result.bind_eq_ok_iff.mpr ⟨outcome, hresult.trans houtcome, rfl⟩
    refine ⟨_, ?_, .cons ⟨outcome, a.elapsedMs, houtcome, rfl⟩ hyields⟩
    rw [List.mapM_cons, hattempt, hresults]
    rfl

theorem flatMap_events {p : ProblemSection} {attempts : List (Attempt α)}
    (h : List.Forall₂ (Attempted p r) bs attempts) :
    attempts.flatMap (·.events) = bs.flatMap fun b => (solveRound p r b).2 := by
  induction h with
  | nil => rfl
  | cons ha _ ih => rw [List.flatMap_cons, List.flatMap_cons, ih, ha.2.2]

/-- What a round adds to the events of a run. -/
theorem recorded_round {attempts : List (Attempt α)}
    (h : List.Forall₂ (Attempted c.problem r) bs attempts) (rows : List (Row α)) :
    Recorded c bs [r] rows ((attempts.flatMap fun a => a.events.map RunEvent.solver) ++
      rows.map RunEvent.trial) := by
  have hsolver (events : List (SolverEvent α)) :
      (events.map RunEvent.solver).filterMap RunEvent.solverEvent? = events := by
    simp [List.filterMap_map, Function.comp_def, RunEvent.solverEvent?]
  rw [← List.map_flatMap, flatMap_events h]
  constructor
  · simp [List.filterMap_map, Function.comp_def, RunEvent.row?]
  · rw [List.filterMap_append, hsolver]
    simp [List.filterMap_map, Function.comp_def, RunEvent.solverEvent?]

theorem Recorded.append {rs rs' : List (Round α)} {rows rows' : List (Row α)}
    {events events' : List (RunEvent α)} (h : Recorded c bs rs rows events)
    (h' : Recorded c bs rs' rows' events') :
    Recorded c bs (rs ++ rs') (rows ++ rows') (events ++ events') where
  trials := by rw [List.filterMap_append, h.trials, h'.trials]
  solvers := by rw [List.filterMap_append, h.solvers, h'.solvers, List.flatMap_append]

variable [LawfulEnergies α]

theorem Config.Ready.exists_trial (h : c.Ready bs) (hr : r ∈ rounds c.problem)
    {attempts : List (Attempt α)} (ha : List.Forall₂ (Attempted c.problem r) bs attempts) :
    ∃ t, Round.trial c.problem.direction attempts = .ok t ∧ IsTrial c bs r t := by
  obtain ⟨results, hresults, hyields⟩ := exists_results ha fun b hb => h.exists_outcome hr hb
  have hne : results.map (·.energy) ≠ [] := by
    intro hnil
    obtain rfl := List.map_eq_nil_iff.mp hnil
    exact h.ne_nil (List.forall₂_nil_right_iff.mp hyields)
  obtain ⟨best, hbest⟩ := c.problem.direction.exists_best? hne
  have ht : Trial.ofResults c.problem.direction results = .ok ⟨best, results⟩ := by
    rw [Trial.ofResults, hbest]
  exact ⟨⟨best, results⟩, Result.bind_eq_ok_iff.mpr ⟨results, hresults, ht⟩, hyields, hbest⟩

theorem Config.Ready.addRound (h : c.Ready bs) (hr : r ∈ rounds c.problem) {p : Progress α}
    (hp : p.collector.Collected c p.rows.toList) {attempts : List (Attempt α)}
    (ha : List.Forall₂ (Attempted c.problem r) bs attempts) :
    ∃ p' t events, p.addRound c r attempts = (p', .ok ()) ∧ IsTrial c bs r t ∧
      Recorded c bs [r] (t.results.map (Progress.row c r t)) events ∧
      p'.rows.toList = p.rows.toList ++ t.results.map (Progress.row c r t) ∧
      p'.events.toList = p.events.toList ++ events ∧
      p'.collector.Collected c p'.rows.toList := by
  obtain ⟨t, htrial, ht⟩ := h.exists_trial hr ha
  have hnames : t.results.map (·.solver) = c.solvers.map (·.name) :=
    ht.map_solver.trans h.map_name
  obtain ⟨baseline, hbaseline, hmem⟩ := h.exists_baseline
  obtain rfl := Option.some.inj (hbaseline.symm.trans hp.baseline)
  obtain ⟨k, hk, hcollected⟩ := hp.record (h.map_name ▸ h.nodup) (h.map_name ▸ hmem) hnames r
    (trialId r.instanceIndex r.trialIndex)
  unfold Progress.addRound
  simp only [htrial, hk]
  refine ⟨_, t, _, rfl, ht, recorded_round ha _, ?_, ?_, ?_⟩
  · simp
  · simp
  · simpa using hcollected

end Trials

section Runs
variable {c : Config} {bs : List (Blueprint α)} {m : Type → Type} [Monad m] [LawfulMonad m]

omit [LawfulMonad m] in
theorem attemptAll_gives (P : Promise m) {p : ProblemSection} {r : Round α}
    {solve : Blueprint α → m (Attempt α)}
    (hsolve : ∀ b ∈ bs, P.Gives (Attempted p r b) (solve b))
    (hok : ∀ b ∈ bs, ∃ outcome, (solveRound p r b).1 = .ok outcome) :
    P.Gives (List.Forall₂ (Attempted p r) bs) (attemptAll solve bs) := by
  induction bs with
  | nil => exact P.pure .nil
  | cons b bs ih =>
    obtain ⟨hsolveb, hsolve⟩ := List.forall_mem_cons.mp hsolve
    obtain ⟨⟨outcome, houtcome⟩, hok⟩ := List.forall_mem_cons.mp hok
    refine P.bind hsolveb fun a ha => ?_
    have hsucceeds : a.result.toBool = true := by rw [ha.2.1, houtcome]; rfl
    rw [if_pos hsucceeds]
    exact P.bind (ih hsolve hok) fun as has => P.pure (.cons ha has)

omit [Transcendental α] [LawfulMonad m] in
/-- Runs the rounds in order, up to the first that fails, with a step after each that succeeds. -/
def runRoundsWith (c : Config) (bs : List (Blueprint α))
    (solve : Round α → Blueprint α → m (Attempt α)) (store : Progress α → m Unit) :
    Progress α → List (Round α) → m (Progress α × Except RunFault Unit)
  | p, [] => pure (p, .ok ())
  | p, r :: rest => do
    let attempts ← attemptAll (solve r) bs
    match p.addRound c r attempts with
    | (p, .error fault) => return (p, .error fault)
    | (p, .ok ()) => do
      store p
      runRoundsWith c bs solve store p rest

omit [Transcendental α] in
theorem runRoundsWith_pure (solve : Round α → Blueprint α → m (Attempt α))
    (p : Progress α) (rs : List (Round α)) :
    runRoundsWith c bs solve (fun _ => pure ()) p rs = runRounds c bs solve p rs := by
  induction rs generalizing p with
  | nil => rfl
  | cons r rs ih =>
    refine bind_congr fun attempts => ?_
    rcases p.addRound c r attempts with ⟨p', fault | ⟨⟩⟩
    · rfl
    · exact (pure_bind _ _).trans (ih p')

/-- What rounds bring that are run to the last, after the rows and events of those before. -/
structure Finished (c : Config) (bs : List (Blueprint α)) (before : Progress α)
    (rs : List (Round α)) (q : Progress α × Except RunFault Unit) : Prop where
  ended : q.2 = .ok ()
  collected : q.1.collector.Collected c q.1.rows.toList
  added : ∃ rows events, Written c bs rs rows ∧ Recorded c bs rs rows events ∧
    q.1.rows.toList = before.rows.toList ++ rows ∧
    q.1.events.toList = before.events.toList ++ events

omit [LawfulMonad m] in
/-- A run that is finished has written what its rounds have added. -/
theorem Finished.written {start : Progress α} (hstart : Progress.new c = .ok start)
    {rs : List (Round α)} {q : Progress α × Except RunFault Unit} (h : Finished c bs start rs q) :
    Written c bs rs q.1.rows.toList ∧ Recorded c bs rs q.1.rows.toList q.1.events.toList := by
  obtain ⟨k, -, hk⟩ := Result.bind_eq_ok_iff.mp hstart
  obtain rfl := Except.ok.inj hk
  obtain ⟨rows, events, hwritten, hrecorded, hrows, hevents⟩ := h.added
  obtain rfl : _ = rows := hrows
  obtain rfl : _ = events := hevents
  exact ⟨hwritten, hrecorded⟩

variable [LawfulEnergies α]

/-- Rounds of a configuration that is ready are run to the last, and what they add is written. Each
step in between is promised of as many rows as there are in the end. -/
theorem Config.Ready.runRoundsWith_gives (h : c.Ready bs) (P : Promise m)
    {solve : Round α → Blueprint α → m (Attempt α)} {store : Progress α → m Unit}
    {rs : List (Round α)}
    (hsolve : ∀ r ∈ rs, ∀ b ∈ bs, P.Gives (Attempted c.problem r b) (solve r b))
    (hrs : ∀ r ∈ rs, r ∈ rounds c.problem) {p : Progress α}
    (hp : p.collector.Collected c p.rows.toList)
    (hstore : ∀ q : Progress α, q.collector.Collected c q.rows.toList →
      q.rows.toList.length ≤ p.rows.toList.length + rs.length * bs.length →
        P.Gives (fun _ => True) (store q)) :
    P.Gives (Finished c bs p rs) (runRoundsWith c bs solve store p rs) := by
  -- What the collector holds goes from round to round: it is the sum of the rows so far.
  induction rs generalizing p with
  | nil =>
    exact P.pure ⟨rfl, hp, [], [], .nil, ⟨rfl, rfl⟩, (List.append_nil _).symm,
      (List.append_nil _).symm⟩
  | cons r rs ih =>
    obtain ⟨hsolver, hsolve⟩ := List.forall_mem_cons.mp hsolve
    obtain ⟨hr, hrs⟩ := List.forall_mem_cons.mp hrs
    refine P.bind (attemptAll_gives P hsolver fun b hb => h.exists_outcome hr hb) ?_
    intro attempts ha
    obtain ⟨p', t, seen, hadd, ht, hseen, hrows, hevents, hp'⟩ := h.addRound hr hp ha
    have hlength : p'.rows.toList.length = p.rows.toList.length + bs.length := by
      rw [hrows, List.length_append, List.length_map, ht.results.length_eq]
    have hcount : (r :: rs).length * bs.length = bs.length + rs.length * bs.length := by
      rw [List.length_cons, Nat.succ_mul, Nat.add_comm]
    rw [hadd]
    refine P.bind (hstore p' hp' (by omega)) fun _ _ => ?_
    refine P.imp (ih hsolve hrs hp' fun q hq hle => hstore q hq (by omega)) ?_
    rintro q ⟨hend, hcollected, rows, events, hwritten, hrecorded, hq, hq'⟩
    exact ⟨hend, hcollected, _, _, .cons ht hwritten, hseen.append hrecorded,
      by rw [hq, hrows, List.append_assoc], by rw [hq', hevents, List.append_assoc]⟩

theorem Config.Ready.runRounds_gives (h : c.Ready bs) (P : Promise m)
    {solve : Round α → Blueprint α → m (Attempt α)} {rs : List (Round α)}
    (hsolve : ∀ r ∈ rs, ∀ b ∈ bs, P.Gives (Attempted c.problem r b) (solve r b))
    (hrs : ∀ r ∈ rs, r ∈ rounds c.problem) {p : Progress α}
    (hp : p.collector.Collected c p.rows.toList) :
    P.Gives (Finished c bs p rs) (runRounds c bs solve p rs) :=
  runRoundsWith_pure solve p rs ▸ h.runRoundsWith_gives P hsolve hrs hp fun _ _ _ => P.pure trivial

omit [Transcendental α] [LawfulEnergies α] in
theorem Config.Equipped.exists_new (h : c.Equipped bs) :
    ∃ k, Progress.new c = .ok (⟨k, #[], #[]⟩ : Progress α) ∧ Collector.Collected c [] k := by
  obtain ⟨baseline, hbaseline, -⟩ := h.exists_baseline
  obtain ⟨k, hk⟩ : ∃ k : Collector α, Collector.new c = .ok k := by
    unfold Collector.new
    rw [hbaseline]
    exact ⟨_, rfl⟩
  exact ⟨k, Result.bind_eq_ok_iff.mpr ⟨k, hk, rfl⟩,
    Collector.collected_new (h.map_name ▸ h.nodup) hk⟩

/-- A run of a configuration that is ready goes to its end, and writes a trial for each round. -/
theorem Config.Ready.run_spec (h : c.Ready bs) (elapsedMs : Round α → Blueprint α → α)
    {start : Progress α} (hstart : Progress.new c = .ok start) :
    (run c bs elapsedMs start).2 = .ok () ∧
      (run c bs elapsedMs start).1.collector.Collected c (run c bs elapsedMs start).1.rows.toList ∧
      Written c bs (rounds c.problem) (run c bs elapsedMs start).1.rows.toList := by
  obtain ⟨k, hk, hp⟩ := h.toEquipped.exists_new
  obtain rfl := Except.ok.inj (hk.symm.trans hstart)
  have hsolve (r : Round α) (b : Blueprint α) : (Promise.satisfies Id).Gives
      (Attempted c.problem r b)
      (pure ⟨b, (solveRound c.problem r b).1, (solveRound c.problem r b).2, elapsedMs r b⟩) :=
    .pure ⟨rfl, rfl, rfl⟩
  have hrun := h.runRounds_gives (Promise.satisfies Id) (fun r _ b _ => hsolve r b)
    (fun _ hr => hr) (p := ⟨k, #[], #[]⟩) hp
  have hfinished := SatisfiesM_Id_eq.mp hrun
  exact ⟨hfinished.ended, hfinished.collected, (hfinished.written hk).1⟩

omit [LawfulEnergies α] in
/-- In a run of a configuration that is not ready some solver fails in each round, so that nothing
is written. -/
theorem Config.Equipped.rows_run_eq_empty (h : c.Equipped bs) (hnot : ¬ c.Ready bs)
    (elapsedMs : Round α → Blueprint α → α) {start : Progress α}
    (hstart : Progress.new c = .ok start) : (run c bs elapsedMs start).1.rows = #[] := by
  obtain ⟨k, hk, -⟩ := h.exists_new (α := α)
  obtain rfl := Except.ok.inj (hk.symm.trans hstart)
  apply Array.eq_empty_iff_forall_not_mem.mpr
  apply forall_rows_runRounds (P := fun _ => False)
  · intro r hr t ht
    exact absurd (h.ready_of_outcomes hr (exists_outcome_of_trial ht)) hnot
  · simp

end Runs

end Qubo.Benchmark

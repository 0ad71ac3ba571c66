import Mathlib.Tactic
import Qubo.Proofs.Anneal.Run
import Qubo.Proofs.Anneal.Sweep

/-! The trials of a sweep as they were made, each with the cost that it was decided by: where every
cost is a change of energy, those that were paid add up to the change over a whole run. -/
namespace Qubo.Anneal
variable {σ τ β γ α : Type}

/-- A trial as it was made: what it found, which flip it proposed, at which cost, and whether the
flip was made. -/
structure Move (σ β α : Type) where
  before : σ
  proposal : β
  cost : α
  taken : Bool

namespace Move

/-- What a trial leaves; `turn` makes a flip. -/
def after (turn : σ → β → σ) (t : Move σ β α) : σ :=
  if t.taken then turn t.before t.proposal else t.before

def paid (t : Move σ β ℚ) : ℚ := if t.taken then t.cost else 0

/-- The same trial in another view of the spins and the flips. -/
def map (f : σ → τ) (g : β → γ) (t : Move σ β α) : Move τ γ α :=
  ⟨f t.before, g t.proposal, t.cost, t.taken⟩

theorem after_map {turn : σ → β → σ} {turn' : τ → γ → τ} {f : σ → τ} {g : β → γ}
    (h : ∀ q p, f (turn q p) = turn' (f q) (g p)) (t : Move σ β α) :
    (t.map f g).after turn' = f (t.after turn) := by
  simp only [after, map, ← h]
  exact (apply_ite f _ _ _).symm

end Move

/-- Each trial finds what the one before it has left. -/
inductive Chain (turn : σ → β → σ) : σ → List (Move σ β α) → σ → Prop where
  | nil (q : σ) : Chain turn q [] q
  | cons {t : Move σ β α} {ts : List (Move σ β α)} {q' : σ} (h : Chain turn (t.after turn) ts q') :
    Chain turn t.before (t :: ts) q'

section Chain
variable {turn : σ → β → σ} {q q' q'' : σ}

theorem Chain.append {ts us : List (Move σ β α)} (h : Chain turn q ts q')
    (hus : Chain turn q' us q'') : Chain turn q (ts ++ us) q'' := by
  induction h with
  | nil => exact hus
  | cons _ ih => exact .cons (ih hus)

theorem Chain.map {turn' : τ → γ → τ} {f : σ → τ} {g : β → γ}
    (hturn : ∀ q p, f (turn q p) = turn' (f q) (g p)) {ts : List (Move σ β α)}
    (h : Chain turn q ts q') : Chain turn' (f q) (ts.map (Move.map f g)) (f q') := by
  induction h with
  | nil => exact .nil _
  | @cons t ts q' _ ih =>
    rw [← Move.after_map hturn] at ih
    exact .cons ih

/-- What is paid for flips adds up, if each costs the change that it makes. -/
theorem Chain.sum_paid {energy : σ → ℚ} {ts : List (Move σ β ℚ)} (h : Chain turn q ts q')
    (hcost : ∀ t ∈ ts, t.cost = energy (turn t.before t.proposal) - energy t.before) :
    (ts.map Move.paid).sum = energy q' - energy q := by
  induction h with
  | nil => simp
  | @cons t ts q' _ ih =>
    have hpaid : t.paid = energy (t.after turn) - energy t.before := by
      unfold Move.paid Move.after
      split_ifs
      · exact hcost t List.mem_cons_self
      · rw [sub_self]
    rw [List.map_cons, List.sum_cons, ih fun u hu => hcost u (List.mem_cons_of_mem _ hu), hpaid]
    ring

end Chain

/-- The books of a run of trials: every one costs what its flip would change in the energy, so that
what is paid is the change over the run. -/
structure Balanced (turn : σ → β → σ) (energy : σ → ℚ) (q : σ) (ts : List (Move σ β ℚ)) (q' : σ) :
    Prop where
  chain : Chain turn q ts q'
  cost : ∀ t ∈ ts, t.cost = energy (turn t.before t.proposal) - energy t.before
  total : (ts.map Move.paid).sum = energy q' - energy q

section Balanced
variable {turn : σ → β → σ} {energy : σ → ℚ} {q q' q'' : σ} {ts us : List (Move σ β ℚ)}

theorem Chain.balanced (h : Chain turn q ts q')
    (hcost : ∀ t ∈ ts, t.cost = energy (turn t.before t.proposal) - energy t.before) :
    Balanced turn energy q ts q' :=
  ⟨h, hcost, h.sum_paid hcost⟩

theorem Balanced.map {turn' : τ → γ → τ} {energy' : τ → ℚ} {f : σ → τ} {g : β → γ}
    (hturn : ∀ q p, f (turn q p) = turn' (f q) (g p))
    (h : Balanced turn (fun q => energy' (f q)) q ts q') :
    Balanced turn' energy' (f q) (ts.map (Move.map f g)) (f q') := by
  refine (h.chain.map hturn).balanced fun t ht => ?_
  obtain ⟨u, hu, rfl⟩ := List.mem_map.mp ht
  refine (h.cost u hu).trans ?_
  rw [hturn]
  rfl

theorem Balanced.append (h : Balanced turn energy q ts q') (hus : Balanced turn energy q' us q'') :
    Balanced turn energy q (ts ++ us) q'' := by
  refine (h.chain.append hus.chain).balanced fun t ht => ?_
  rcases List.mem_append.mp ht with ht | ht
  · exact h.cost t ht
  · exact hus.cost t ht

end Balanced

section Sweep
variable [Scalar α] [Transcendental α] (coupling g kt : α) (field : Matrix α → Proposal α → α)

/-- One trial of a sweep. -/
def trialMove (q : Matrix α) (p : Proposal α) : Move (Matrix α) (Proposal α) α where
  before := q
  proposal := p
  cost := flipCost coupling q p (field q p)
  taken := accepts kt (flipCost coupling q p (field q p)) p.chance

def trialMoves : Matrix α → List (Proposal α) → List (Move (Matrix α) (Proposal α) α)
  | _, [] => []
  | q, p :: ps => trialMove coupling kt field q p :: trialMoves (trial coupling kt field q p) ps

/-- The trials of a sweep, one for each proposal. -/
def sweepMoves (q : Matrix α) (ps : List (Proposal α)) : List (Move (Matrix α) (Proposal α) α) :=
  trialMoves (trotterCoupling g kt q.rows) kt field q ps

theorem map_proposal_trialMoves (q : Matrix α) (ps : List (Proposal α)) :
    (trialMoves coupling kt field q ps).map Move.proposal = ps := by
  induction ps generalizing q with
  | nil => rfl
  | cons p ps ih => exact congrArg (p :: ·) (ih _)

theorem chain_trialMoves (q : Matrix α) (ps : List (Proposal α)) :
    Chain flip q (trialMoves coupling kt field q ps) (ps.foldl (trial coupling kt field) q) := by
  induction ps generalizing q with
  | nil => exact .nil q
  | cons p ps ih => exact Chain.cons (t := trialMove coupling kt field q p) (ih _)

/-- The trials of a sweep lead from the spins that it starts with to those that it ends with. -/
theorem chain_sweepMoves (q : Matrix α) (ps : List (Proposal α)) :
    Chain flip q (sweepMoves g kt field q ps) (sweep g kt field q ps) :=
  chain_trialMoves _ kt field q ps

/-- A trial finds spins that have the shape of those at the start. -/
theorem exists_of_mem_trialMoves {q : Matrix α} {ps : List (Proposal α)}
    {t : Move (Matrix α) (Proposal α) α} (ht : t ∈ trialMoves coupling kt field q ps) :
    ∃ q₀ p, p ∈ ps ∧ q₀.rows = q.rows ∧ q₀.cols = q.cols ∧
      t = trialMove coupling kt field q₀ p := by
  induction ps generalizing q with
  | nil => exact absurd ht List.not_mem_nil
  | cons p ps ih =>
    rcases List.mem_cons.mp ht with rfl | ht
    · exact ⟨q, p, List.mem_cons_self, rfl, rfl, rfl⟩
    · obtain ⟨q₀, p', hp', hrows, hcols, rfl⟩ := ih ht
      exact ⟨q₀, p', List.mem_cons_of_mem p hp', hrows.trans (rows_trial ..),
        hcols.trans (cols_trial ..), rfl⟩

theorem proposal_mem_of_mem_sweepMoves {q : Matrix α} {ps : List (Proposal α)}
    {t : Move (Matrix α) (Proposal α) α} (ht : t ∈ sweepMoves g kt field q ps) :
    t.proposal ∈ ps := by
  obtain ⟨-, p, hp, -, -, rfl⟩ := exists_of_mem_trialMoves _ _ _ ht
  exact hp

@[simp] theorem length_sweepMoves (q : Matrix α) (ps : List (Proposal α)) :
    (sweepMoves g kt field q ps).length = ps.length := by
  have h := map_proposal_trialMoves (trotterCoupling g kt q.rows) kt field q ps
  rw [sweepMoves, ← List.length_map, h]

end Sweep

/-- A sweep is balanced in every energy that each of its proposals changes by what it costs. -/
theorem balanced_sweep [Transcendental ℚ] {g kt : ℚ} {field : Matrix ℚ → Proposal ℚ → ℚ}
    {energy : Matrix ℚ → ℚ} {q : Matrix ℚ} {ps : List (Proposal ℚ)}
    (hcost : ∀ q₀ : Matrix ℚ, q₀.rows = q.rows → q₀.cols = q.cols → ∀ p ∈ ps,
      flipCost (trotterCoupling g kt q.rows) q₀ p (field q₀ p) =
        energy (flip q₀ p) - energy q₀) :
    Balanced flip energy q (sweepMoves g kt field q ps) (sweep g kt field q ps) := by
  refine (chain_sweepMoves g kt field q ps).balanced fun t ht => ?_
  obtain ⟨q₀, p, hp, hrows, hcols, rfl⟩ := exists_of_mem_trialMoves _ _ _ ht
  exact hcost q₀ hrows hcols p hp

/-- A proposal names a variable and a slice. -/
def Proposal.Within (p : Proposal α) (n m : ℕ) : Prop := p.site < n ∧ p.slice < m

theorem proposals_within [Scalar α] (n m : ℕ) (rng : Random.Generator) :
    ∀ p ∈ (proposals (α := α) n m rng).1, p.Within n m := by
  intro p hp
  have hpos : 0 < n * m := by
    have hlength := List.length_pos_of_mem hp
    rwa [proposals, Random.Draw.length_many] at hlength
  refine Random.Draw.forall_mem_many (P := fun p => p.Within n m) (fun g => ?_) _ _ p hp
  exact ⟨Random.Draw.below_lt (Nat.pos_of_mul_pos_right hpos) g,
    Random.Draw.below_lt (Nat.pos_of_mul_pos_left hpos) _⟩

/-- The trials of several steps, each of which goes on where the one before it has ended. -/
def movesOver (step : σ → Random.Draw σ) (moves : σ → Random.Generator → List (Move σ β α)) :
    ℕ → σ → Random.Generator → List (Move σ β α)
  | 0, _, _ => []
  | k + 1, q, rng => moves q rng ++ movesOver step moves k (step q rng).1 (step q rng).2

namespace Session
variable {F : Family} {s : Session F α} {model : F.Model} {m : ℕ} {q : F.Spins}
  {rng : Random.Generator}

/-- The annealer may take steps, from these spins in `m` slices and with this generator. -/
structure Running (s : Session F α) (model : F.Model) (m : ℕ) (q : F.Spins)
    (rng : Random.Generator) : Prop where
  prepared : s.prepared = true
  model : s.model = some model
  trotters : s.trotters = some m
  spins : s.spins = some q
  rng : s.rng = some rng

theorem Running.annealOneStep [Annealable F α] (h : s.Running model m q rng) (g kt : α) :
    ∃ s', s.annealOneStep g kt = .ok s' ∧
      s'.Running model m (Annealable.step model m g kt q rng).1
        (Annealable.step model m g kt q rng).2 := by
  have hslices : s.slices = m := by rw [slices, h.trotters, Option.getD_some]
  refine ⟨_, annealOneStep_eq_ok_iff.mpr
    ⟨model, rng, q, h.prepared, h.model, h.rng, h.spins, rfl⟩, ?_⟩
  rw [hslices]
  exact ⟨h.prepared, h.model, h.trotters, rfl, rfl⟩

/-- So may every annealer that has been prepared for the problem in force. -/
theorem Sound.exists_running [Annealable F α] {R : F.Model → ℕ → F.Spins → Prop}
    (hsound : Sound R s) {p : F.Problem} {d : Direction} (hfollows : Follows (some (p, d)) s)
    (hprepared : s.prepared = true) {given : F.Model} (hgiven : Annealable.model p = .ok given) :
    ∃ m q rng, 0 < m ∧ R (Annealable.signed given d) m q ∧
      s.Running (Annealable.signed given d) m q rng := by
  obtain ⟨hrng, hspins⟩ := hsound.prepared hprepared
  obtain ⟨rng, hrng⟩ := Option.isSome_iff_exists.mp hrng
  obtain ⟨q, hspins⟩ := Option.isSome_iff_exists.mp hspins
  obtain ⟨model, m, hmodel, htrotters, hR⟩ := hsound.spins_fit q hspins
  obtain ⟨given', hgiven', hsigned, -⟩ := hfollows
  obtain rfl : given' = given := Except.ok.inj (hgiven'.symm.trans hgiven)
  obtain rfl : model = Annealable.signed given' d :=
    Option.some.inj (hmodel.symm.trans hsigned)
  exact ⟨m, q, rng, hsound.trotters_pos m htrotters, hR, hprepared, hmodel, htrotters, hspins, hrng⟩

/-- Steps at one field and temperature succeed, and are balanced if each of them is. -/
theorem Running.balanced_steps {F : Family} [Annealable F ℚ] {s : Session F ℚ} {model : F.Model}
    {q : F.Spins} {g kt : ℚ} {turn : F.Spins → β → F.Spins} {energy : F.Spins → ℚ}
    {moves : F.Spins → Random.Generator → List (Move F.Spins β ℚ)} {I : F.Spins → Prop}
    (hstep : ∀ q rng, I q → I (Annealable.step model m g kt q rng).1 ∧
      Balanced turn energy q (moves q rng) (Annealable.step model m g kt q rng).1)
    (h : s.Running model m q rng) (hI : I q) (k : ℕ) :
    ∃ s' q' rng', (List.replicate k g).foldlM (fun s g => s.annealOneStep g kt) s = .ok s' ∧
      s'.Running model m q' rng' ∧ I q' ∧
      Balanced turn energy q (movesOver (Annealable.step model m g kt) moves k q rng) q' := by
  induction k generalizing s q rng with
  | zero => exact ⟨s, q, rng, rfl, h, hI, (Chain.nil q).balanced (by simp)⟩
  | succ k ih =>
    obtain ⟨t, ht, hrunning⟩ := h.annealOneStep g kt
    obtain ⟨hIstep, hbalanced⟩ := hstep q rng hI
    obtain ⟨s', q', rng', hs', hrunning', hI', hrest⟩ := ih hrunning hIstep
    refine ⟨s', q', rng', ?_, hrunning', hI', hbalanced.append hrest⟩
    rw [List.replicate_succ, List.foldlM_cons]
    exact Result.bind_eq_ok_iff.mpr ⟨t, ht, hs'⟩

end Session

/-- What holds of the trials of every step holds of those of several. -/
theorem forall_mem_movesOver {step : σ → Random.Draw σ}
    {moves : σ → Random.Generator → List (Move σ β α)} {P : Move σ β α → Prop}
    (h : ∀ q rng, ∀ t ∈ moves q rng, P t) (k : ℕ) (q : σ) (rng : Random.Generator) :
    ∀ t ∈ movesOver step moves k q rng, P t := by
  induction k generalizing q rng with
  | zero => simp [movesOver]
  | succ k ih =>
    intro t ht
    rcases List.mem_append.mp ht with ht | ht
    · exact h q rng t ht
    · exact ih _ _ t ht

theorem length_movesOver {step : σ → Random.Draw σ}
    {moves : σ → Random.Generator → List (Move σ β α)} {n : ℕ}
    (h : ∀ q rng, (moves q rng).length = n) (k : ℕ) (q : σ) (rng : Random.Generator) :
    (movesOver step moves k q rng).length = k * n := by
  induction k generalizing q rng with
  | zero => simp [movesOver]
  | succ k ih =>
    rw [movesOver, List.length_append, h, ih]
    ring

end Qubo.Anneal

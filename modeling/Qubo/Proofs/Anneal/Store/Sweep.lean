import Mathlib.Tactic
import Qubo.Anneal.Sweep
import Qubo.Proofs.Anneal.Sweep
import Qubo.Proofs.Matrix.Checked

/-! Sweeps and fresh spins as loops over stored slices, each trial drawn when its turn comes. Over
slices of a problem's shape no draw, index, division or remainder of these loops can fault, and
they leave what the sweep over trials drawn beforehand leaves. -/
namespace Qubo.Anneal
open Checked (Fault)
variable {α : Type} [Scalar α]

/-- Change of energy when the spin `s` turns around, given what it feels and twice the share of one
slice. -/
def flipCostAt (share coupling : α) (q : Matrix α) (site slice : ℕ) (s field : α) :
    Except Fault α := do
  let de := -share * s * field
  if 1 < q.rows then
    let before ← q.readAt (← Checked.remainder (slice + q.rows - 1) q.rows) site
    let after ← q.readAt (← Checked.remainder (slice + 1) q.rows) site
    return de - s * (before + after) * coupling
  else return de

theorem flipCostAt_eq (coupling : α) {q : Matrix α} {p : Proposal α} (hslice : p.slice < q.rows)
    (hsite : p.site < q.cols) (field : α) :
    flipCostAt (Scalar.two / (q.rows : α)) coupling q p.site p.slice
      (q.entry p.slice p.site) field = .ok (flipCost coupling q p field) := by
  have hpos : 0 < q.rows := Nat.zero_lt_of_lt hslice
  rw [flipCostAt, flipCost]
  split_ifs with hring
  · rw [Checked.remainder_eq _ hpos, Checked.remainder_eq _ hpos]
    simp only [bind, Except.bind, q.readAt_eq (Nat.mod_lt _ hpos) hsite]
    rfl
  · rfl

/-- Writes one assignment into every slice. -/
def uniformAt (m : ℕ) (x : Bits) (q : Matrix α) : Except Fault (Matrix α) := do
  let spins : List α := x.spins
  let (q, _) ← q.writeRows (fun c _ => return (← Checked.demand spins[c]?, ())) m spins.length ()
  return q

theorem uniformAt_eq {m : ℕ} {x : Bits} {q : Matrix α} (hrows : q.rows = m)
    (hcols : q.cols = x.size) : uniformAt m x q = .ok (uniformSpins m x) := by
  have hlength : (x.spins : List α).length = x.size := x.length_spins
  have hspin (c : ℕ) (hc : c < x.size) : (x.spins : List α)[c]? =
      some ((x.spins : List α).toArray.getD c Scalar.zero) := by
    rw [Array.getD_eq_getD_getElem?, List.getElem?_toArray,
      List.getElem?_eq_getElem (hlength ▸ hc), Option.getD_some]
  have hwritten := Matrix.writeRows_eq (m := m) (n := x.size)
    (f := fun c _ => return (← Checked.demand (x.spins : List α)[c]?, ()))
    (fun i => (x.spins : List α).toArray.getD (i % x.size) Scalar.zero) (fun _ => ())
    (fun r _ c hc => by
      simp only [Matrix.index_mod hc, Checked.demand_eq (hspin c hc)]
      rfl)
    hrows hcols
  rw [uniformAt, hlength, hwritten, uniformSpins]
  refine congrArg Except.ok (Matrix.generate_congr fun r _ c hc => ?_)
  rw [Matrix.index_mod hc]

/-- Draws every stored spin anew. -/
def randomAt (q : Matrix α) (g : Random.Generator) : Except Fault (Matrix α × Random.Generator) :=
  q.writeRows (fun _ g => .ok (Random.Draw.spin g)) q.rows q.cols g

theorem randomAt_eq {m n : ℕ} {q : Matrix α} (hrows : q.rows = m) (hcols : q.cols = n)
    (g : Random.Generator) : randomAt q g = .ok (randomSpins n m g) := by
  rw [randomAt, hrows, hcols]
  exact Matrix.writeRows_draw Random.Draw.spin hrows hcols g

variable [Transcendental α]

/-- One trial: draw a variable and a slice, weigh the flip, draw its chance, and turn the spin
around if the flip is accepted. -/
def trialAt (share coupling kt : α) (fieldAt : Matrix α → ℕ → ℕ → Except Fault α)
    (t : Matrix α × Random.Generator) : Except Fault (Matrix α × Random.Generator) := do
  let (q, g) := t
  let (site, g) ← Checked.below q.cols g
  let (slice, g) ← Checked.below q.rows g
  let s ← q.readAt slice site
  let field ← fieldAt q site slice
  let de ← flipCostAt share coupling q site slice s field
  let (chance, g) := Random.Draw.unit g
  if accepts kt de chance then
    return (← q.writeAt slice site (-s), g)
  else return (q, g)

/-- As many trials as there are spins; `prepare` looks up what stays the same for all of them. -/
def sweepAt (prepare : Except Fault (Matrix α → ℕ → ℕ → Except Fault α)) (g kt : α) (q : Matrix α)
    (rng : Random.Generator) : Except Fault (Matrix α × Random.Generator) := do
  if q.rows = 0 ∨ q.cols = 0 then return (q, rng)
  let fieldAt ← prepare
  let share ← Checked.quotient Scalar.two q.rows
  let ratio ← Checked.quotient (g / kt) q.rows
  let coupling := kt * Transcendental.log (Transcendental.tanh ratio)
  Checked.repeated (trialAt share coupling kt fieldAt) (q.cols * q.rows) (q, rng)

/-- The lookup of a field that finds it for every variable in every slice of a given shape. -/
def Finds (m n : ℕ) (fieldAt : Matrix α → ℕ → ℕ → Except Fault α)
    (field : Matrix α → Proposal α → α) : Prop :=
  ∀ q p, q.rows = m → q.cols = n → p.slice < m → p.site < n →
    fieldAt q p.site p.slice = .ok (field q p)

section Trial
variable {m n : ℕ} {fieldAt : Matrix α → ℕ → ℕ → Except Fault α} {field : Matrix α → Proposal α → α}

theorem trialAt_eq (hfield : Finds m n fieldAt field) (hm : 0 < m) (hn : 0 < n) (coupling kt : α)
    {q : Matrix α} (hrows : q.rows = m) (hcols : q.cols = n) {p : Proposal α}
    {g g' : Random.Generator} (hp : propose n m g = (p, g')) :
    trialAt (Scalar.two / (m : α)) coupling kt fieldAt (q, g) =
      .ok (trial coupling kt field q p, g') := by
  obtain rfl := hrows
  obtain rfl := hcols
  have hsite := Random.Draw.below_lt hn g
  rcases hdrawn : Random.Draw.below q.cols g with ⟨site, g₁⟩
  have hslice := Random.Draw.below_lt hm g₁
  rcases hdrawn' : Random.Draw.below q.rows g₁ with ⟨slice, g₂⟩
  rw [hdrawn] at hsite
  rw [hdrawn'] at hslice
  rcases hchance : Random.Draw.unit (α := α) g₂ with ⟨chance, g₃⟩
  obtain ⟨rfl, rfl⟩ : ⟨site, slice, chance⟩ = p ∧ g₃ = g' := by
    simp only [propose, hdrawn, hdrawn', hchance] at hp
    exact Prod.mk.inj hp
  have hfelt := hfield q ⟨site, slice, chance⟩ rfl rfl hslice hsite
  have hcost := flipCostAt_eq coupling (p := ⟨site, slice, chance⟩) hslice hsite
    (field q ⟨site, slice, chance⟩)
  simp only [trialAt, Checked.below_eq _ hn, hdrawn, Checked.below_eq _ hm, hdrawn', bind,
    Except.bind, q.readAt_eq hslice hsite, hfelt, hcost, hchance, trial]
  split_ifs
  · rw [q.writeAt_eq _ hslice hsite]
    rfl
  · rfl

/-- The trials one after another are the trials drawn beforehand. -/
theorem repeated_trialAt_eq (hfield : Finds m n fieldAt field) (hm : 0 < m) (hn : 0 < n)
    (coupling kt : α) (k : ℕ) {q : Matrix α} (hrows : q.rows = m) (hcols : q.cols = n)
    (g : Random.Generator) :
    Checked.repeated (trialAt (Scalar.two / (m : α)) coupling kt fieldAt) k (q, g) =
      .ok ((Random.Draw.many (propose (α := α) n m) k g).1.foldl (trial coupling kt field) q,
        (Random.Draw.many (propose (α := α) n m) k g).2) := by
  induction k generalizing q g with
  | zero => rfl
  | succ k ih =>
    have htrial := trialAt_eq hfield hm hn coupling kt hrows hcols (g := g) rfl
    refine Result.bind_eq_ok_iff.mpr ⟨_, htrial, ?_⟩
    exact ih ((rows_trial coupling kt field q _).trans hrows)
      ((cols_trial coupling kt field q _).trans hcols) _

theorem sweepAt_eq {prepare : Except Fault (Matrix α → ℕ → ℕ → Except Fault α)}
    (hprepare : prepare = .ok fieldAt) (hfield : Finds m n fieldAt field) (hm : 0 < m) (g kt : α)
    {q : Matrix α} (hrows : q.rows = m) (hcols : q.cols = n) (rng : Random.Generator) :
    sweepAt prepare g kt q rng =
      .ok (sweep g kt field q (proposals n m rng).1, (proposals (α := α) n m rng).2) := by
  rw [sweepAt, hrows, hcols, proposals]
  rcases Nat.eq_zero_or_pos n with rfl | hn
  · -- Without variables there is nothing to draw and nothing to turn around.
    rw [if_pos (Or.inr rfl), Nat.zero_mul]
    rfl
  · rw [if_neg (by omega)]
    have htrials := repeated_trialAt_eq hfield hm hn (trotterCoupling g kt m) kt (n * m) hrows hcols
      rng
    rw [sweep, hrows, ← htrials, hprepare]
    simp only [bind, Except.bind, Checked.quotient_eq _ hm]
    rfl

end Trial

end Qubo.Anneal

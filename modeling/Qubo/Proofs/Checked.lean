import Mathlib.Tactic
import Qubo.Proofs.Random.Draw
import Qubo.Proofs.Result

/-! Steps of a program that nothing guards. Each is given as a computation that faults where the
step cannot be taken, so that a program made of them faults wherever one of its steps would. -/
namespace Qubo.Checked

/-- Why a program stops without an answer. -/
inductive Fault where
  /-- An index past the end of an array. -/
  | outOfRange
  | divisionByZero
  /-- A draw from no numbers at all. -/
  | emptyRange
  /-- An array of more entries than memory can address. -/
  | capacity
  deriving DecidableEq, Repr

variable {α β σ : Type}

/-- What an index finds. -/
def demand (found : Option β) : Except Fault β := found.elim (.error .outOfRange) .ok

def remainder (a m : ℕ) : Except Fault ℕ :=
  if m = 0 then .error .divisionByZero else .ok (a % m)

def quotient [Scalar α] (x : α) (m : ℕ) : Except Fault α :=
  if m = 0 then .error .divisionByZero else .ok (x / (m : α))

def below (n : ℕ) (g : Random.Generator) : Except Fault (ℕ × Random.Generator) :=
  if n = 0 then .error .emptyRange else .ok (Random.Draw.below n g)

/-- The same step several times over. -/
def repeated (f : σ → Except Fault σ) : ℕ → σ → Except Fault σ
  | 0, s => .ok s
  | n + 1, s => f s >>= repeated f n

theorem demand_eq {found : Option β} {x : β} (h : found = some x) : demand found = .ok x := by
  rw [h]
  rfl

theorem remainder_eq {m : ℕ} (a : ℕ) (h : 0 < m) : remainder a m = .ok (a % m) := if_neg h.ne'

theorem quotient_eq [Scalar α] {m : ℕ} (x : α) (h : 0 < m) : quotient x m = .ok (x / (m : α)) :=
  if_neg h.ne'

theorem below_eq {n : ℕ} (g : Random.Generator) (h : 0 < n) :
    below n g = .ok (Random.Draw.below n g) := if_neg h.ne'

end Qubo.Checked

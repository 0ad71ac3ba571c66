import Qubo.Scalar
import Qubo.SolverError

/-!
Anneal schedules: the transverse field shrinks by a constant ratio from step to step, as long
as it stays above its end value, at a fixed temperature.
-/
namespace Qubo

structure Schedule (α : Type) where
  gStart : α
  gEnd : α
  tau : α
  kt : α
  /-- Number of trotter slices; the solver chooses when there is none. -/
  trotters : Option Nat
  deriving Repr

namespace Schedule
variable {α : Type} [Scalar α]

/-- From 5 to 1/100 by the ratio 99/100, at temperature 2/100. -/
@[specialize] def standard : Schedule α where
  gStart := Scalar.ratio 5 1
  gEnd := Scalar.ratio 1 100
  tau := Scalar.ratio 99 100
  kt := Scalar.ratio 2 100
  trotters := none

/-- The first fault, in the order of the fields' use. A value that is no number is a fault. -/
@[specialize] def validate (s : Schedule α) : Except SolverError Unit :=
  if ¬ Scalar.zero < s.gEnd then .error (.invalidSchedule .endNotPositive)
  else if ¬ s.gEnd < s.gStart then .error (.invalidSchedule .startNotAboveEnd)
  else if ¬ (Scalar.zero < s.tau ∧ s.tau < Scalar.one) then .error (.invalidSchedule .ratioOutside)
  else if ¬ Scalar.zero < s.kt then .error (.invalidSchedule .temperatureNotPositive)
  else if s.trotters = some 0 then .error (.invalidTrotterCount 0)
  else .ok ()

/-- The field at step `k`, whether or not the schedule goes on that long. -/
@[specialize] def field (s : Schedule α) : Nat → α
  | 0 => s.gStart
  | k + 1 => s.field k * s.tau

/-- The fields from `g` on, at most `n` of them and only while they are above the end value. -/
@[specialize] def fieldsFrom (s : Schedule α) : Nat → α → List α
  | 0, _ => []
  | n + 1, g => if s.gEnd < g then g :: s.fieldsFrom n (g * s.tau) else []

/-- The first `n` fields, or all when there are fewer. -/
@[specialize] def fieldsUpTo (s : Schedule α) (n : Nat) : List α := s.fieldsFrom n s.gStart

/-- The field of every step of a schedule that shrinks. -/
@[specialize] def fields (s : Schedule α) : List α :=
  s.fieldsUpTo (Scalar.decayBound s.gStart s.gEnd s.tau)

def stepCount (s : Schedule α) : Nat := s.fields.length

end Schedule

end Qubo

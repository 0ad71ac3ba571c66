/-!
Why a formula, a solver or the choice of a solver fails, and the text that says so.
-/
namespace Qubo

/-- What a shape was asked of. -/
inductive Operand where
  | denseMatrix
  | denseBits
  | denseSpins
  | bipartiteMatrix
  | bipartiteBits0
  | bipartiteBits1
  | bipartiteSpins0
  | bipartiteSpins1
  | start
  | start0
  | start1
  deriving DecidableEq, Repr

def Operand.name : Operand → String
  | .denseMatrix => "dense W"
  | .denseBits => "dense x"
  | .denseSpins => "dense q"
  | .bipartiteMatrix => "bipartite W"
  | .bipartiteBits0 => "bipartite x0"
  | .bipartiteBits1 => "bipartite x1"
  | .bipartiteSpins0 => "bipartite q0"
  | .bipartiteSpins1 => "bipartite q1"
  | .start => "annealer x"
  | .start0 => "annealer x0"
  | .start1 => "annealer x1"

/-- The requests that need a running session. -/
inductive SessionStep where
  | annealOneStep
  | finAnneal
  | searchRange
  | finSearch
  deriving DecidableEq, Repr

def SessionStep.name : SessionStep → String
  | .annealOneStep => "anneal_one_step"
  | .finAnneal => "fin_anneal"
  | .searchRange => "search_range"
  | .finSearch => "fin_search"

/-- What is wrong with an anneal schedule. -/
inductive ScheduleFault where
  | endNotPositive
  | startNotAboveEnd
  | ratioOutside
  | temperatureNotPositive
  deriving DecidableEq, Repr

def ScheduleFault.message : ScheduleFault → String
  | .endNotPositive => "g_end must be greater than zero"
  | .startNotAboveEnd => "g_start must exceed g_end"
  | .ratioOutside => "tau must lie strictly between 0 and 1"
  | .temperatureNotPositive => "kt must be greater than zero"

inductive SolverError where
  | shapeMismatch (operand : Operand) (expected found : Nat × Nat)
  | notSymmetric (operand : Operand)
  | problemNotSet
  | invalidTrotterCount (count : Nat)
  | problemTooLarge (bits limit : Nat)
  | notInitialized (step : SessionStep)
  | invalidSchedule (fault : ScheduleFault)
  | unsupported (what : String)
  | empty
  deriving DecidableEq, Repr

namespace SolverError

/-- A shape as text: rows, then columns. -/
def shapeText (shape : Nat × Nat) : String := s!"({shape.1}, {shape.2})"

def message : SolverError → String
  | .shapeMismatch operand expected found =>
    s!"{operand.name}: expected shape {shapeText expected}, found {shapeText found}"
  | .notSymmetric operand => s!"{operand.name}: matrix is not symmetric"
  | .problemNotSet => "problem has not been set"
  | .invalidTrotterCount count =>
    s!"number of trotters must be a positive integer, got {count}"
  | .problemTooLarge bits limit =>
    s!"{bits} variables exceed the brute-force limit of {limit}"
  | .notInitialized step => s!"{step.name} called before initialisation"
  | .invalidSchedule fault => s!"invalid anneal schedule: {fault.message}"
  | .unsupported what => s!"unsupported combination: {what}"
  | .empty => "cannot select the best value of an empty sequence"

end SolverError

end Qubo

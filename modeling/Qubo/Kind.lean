import Qubo.Direction
import Qubo.Text.Blank

/-!
Names of the graph families, of the solving strategies and of the directions: their spellings,
their numbers, and how a name written by a person is read.
-/
namespace Qubo

/-- Which variables a problem may couple: any two, few, or only variables of different layers. -/
inductive Graph where
  | dense
  | sparse
  | rbm
  deriving DecidableEq, Repr

/-- How a problem is solved: by looking at every assignment, or by simulated annealing. -/
inductive Strategy where
  | bruteForce
  | anneal
  deriving DecidableEq, Repr

/-- A name that fits nothing of its kind, lower-cased and trimmed. -/
inductive NameError where
  | direction (text : String)
  | graph (text : String)
  | strategy (text : String)
  deriving DecidableEq, Repr

def NameError.message : NameError → String
  | .direction text => s!"unknown optimize method '{text}'"
  | .graph text => s!"unknown graph type '{text}'"
  | .strategy text => s!"unknown solver type '{text}'"

/-- A written name without its outer white space and in lower case. -/
def plainName (text : String) : String := Text.lower (Text.trim text)

namespace Graph

def all : List Graph := [.dense, .sparse, .rbm]

def name : Graph → String
  | .dense => "dense"
  | .sparse => "sparse"
  | .rbm => "rbm"

def index : Graph → Nat
  | .dense => 0
  | .sparse => 1
  | .rbm => 2

def ofIndex? : Nat → Option Graph
  | 0 => some .dense
  | 1 => some .sparse
  | 2 => some .rbm
  | _ => none

/-- Exact spelling only. -/
def ofName? (text : String) : Option Graph := all.find? (·.name == text)

/-- Any case, outer white space, and the other names in use. -/
def read (text : String) : Except NameError Graph :=
  match plainName text with
  | "dense" => .ok .dense
  | "sparse" => .ok .sparse
  | "rbm" | "bipartite" => .ok .rbm
  | other => .error (.graph other)

end Graph

namespace Strategy

def all : List Strategy := [.bruteForce, .anneal]

def name : Strategy → String
  | .bruteForce => "brute_force"
  | .anneal => "anneal"

def index : Strategy → Nat
  | .bruteForce => 0
  | .anneal => 1

def ofIndex? : Nat → Option Strategy
  | 0 => some .bruteForce
  | 1 => some .anneal
  | _ => none

/-- Exact spelling only. -/
def ofName? (text : String) : Option Strategy := all.find? (·.name == text)

/-- Any case, outer white space, and the other names in use. -/
def read (text : String) : Except NameError Strategy :=
  match plainName text with
  | "brute_force" | "bruteforce" | "bf" => .ok .bruteForce
  | "anneal" | "annealer" => .ok .anneal
  | other => .error (.strategy other)

end Strategy

namespace Direction

/-- Exact spelling only. -/
def ofName? (text : String) : Option Direction := all.find? (·.name == text)

/-- Any case, outer white space, and the short names. -/
def read (text : String) : Except NameError Direction :=
  match plainName text with
  | "minimize" | "min" => .ok .minimize
  | "maximize" | "max" => .ok .maximize
  | other => .error (.direction other)

end Direction

end Qubo

import Qubo.Yaml.Value

/-!
Nodes read as what a program expects at a place: text, numbers, truth values, lists and records.
-/
namespace Qubo.Yaml

inductive Misfit where
  | missing (field : String)
  | repeated (field : String)
  | unsuited (field : String)
  deriving DecidableEq, Repr

def Misfit.message : Misfit → String
  | .missing field => s!"field '{field}' is missing"
  | .repeated field => s!"field '{field}' occurs twice"
  | .unsuited field => s!"field '{field}' has an unsuited value"

namespace Node

/-- Any scalar as text. -/
def text? : Node → Option String
  | .scalar _ _ s => some s
  | _ => none

/-- Whether a scalar is read by what its text stands for: it has no quotes, or its tag says so. -/
def isTyped (kind : String) : Option String → Style → Bool
  | _, .plain => true
  | some tag, .literal => tag == Value.coreTag kind
  | _, _ => false

/-- A whole number that fits a 64-bit word. -/
def word? : Node → Option Nat
  | .scalar tag style s => if isTyped "int" tag style then toWord? s else none
  | _ => none

def bool? : Node → Option Bool
  | .scalar tag style s => if isTyped "bool" tag style then toBool? s else none
  | _ => none

/-- Whether a node says that there is no value. -/
def isAbsent : Node → Bool
  | .scalar none .plain s => s.isEmpty || isNull s
  | .scalar (some tag) .plain s => tag == Value.coreTag "null" && isNull s
  | _ => false

/-- A value that may be absent. -/
def optional? {β : Type} (read : Node → Option β) (n : Node) : Option (Option β) :=
  if n.isAbsent then some none else (read n).map some

/-- A list; nothing at all is an empty one. -/
def items? : Node → Option (List Node)
  | .sequence _ items => some items
  | .scalar _ .plain "" => some []
  | _ => none

/-- One of a choice of names, written as text or as a tag before nothing. -/
def name? : Node → Option String
  | .scalar tag style s =>
    match Value.ownTag? tag with
    | some name => if style = .plain && (s.isEmpty || isNull s) then some name else none
    | none => some s
  | _ => none

/-- The entries of a record; nothing at all is an empty one. -/
def entries? : Node → Option (List (Node × Node))
  | .mapping _ entries => some entries
  | .scalar _ .plain "" => some []
  | _ => none

end Node

structure Record where
  fields : List (String × Node)

namespace Record

/-- Keeps the known fields, of which none may occur twice, and drops the others. -/
def ofEntries (known : List String) : List (Node × Node) → Except Misfit (List (String × Node))
  | [] => .ok []
  | (key, n) :: rest =>
    match key.text? with
    | none => .error (.unsuited "key")
    | some name => do
      let fields ← ofEntries known rest
      if !known.contains name then return fields
      if fields.any (·.1 == name) then throw (.repeated name)
      return (name, n) :: fields

def ofNode (place : String) (known : List String) (n : Node) : Except Misfit Record :=
  match n.entries? with
  | none => .error (.unsuited place)
  | some entries => (⟨·⟩) <$> ofEntries known entries

def find? (r : Record) (name : String) : Option Node := r.fields.lookup name

/-- A field that has to be there. -/
def required {β : Type} (r : Record) (name : String) (read : Node → Option β) : Except Misfit β :=
  match r.find? name with
  | none => .error (.missing name)
  | some n => (read n).elim (.error (.unsuited name)) .ok

/-- A field with a value to take when it is left out. -/
def withDefault {β : Type} (r : Record) (name : String) (read : Node → Option β) (default : β) :
    Except Misfit β :=
  match r.find? name with
  | none => .ok default
  | some n => (read n).elim (.error (.unsuited name)) .ok

end Record

end Qubo.Yaml

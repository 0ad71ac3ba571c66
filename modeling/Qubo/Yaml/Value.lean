import Qubo.Yaml.Literal
import Qubo.Yaml.Node

/-!
YAML nodes as values: what scalars stand for is settled, and no mapping has a key twice.
-/
namespace Qubo.Yaml

inductive Value where
  | null
  | bool (b : Bool)
  | int (i : Int)
  | float (x : Float)
  | string (s : String)
  | sequence (items : List Value)
  | mapping (entries : List (Value × Value))
  /-- A value with a tag of the text's own. -/
  | tagged (tag : String) (value : Value)
  deriving Repr

namespace Value

mutual
/-- Whether two values are the same as keys: floats by value, but all that are no number are
one. -/
def isSame : Value → Value → Bool
  | .null, .null => true
  | .bool a, .bool b => a == b
  | .int a, .int b => a == b
  | .float a, .float b => a == b || (a.isNaN && b.isNaN)
  | .string a, .string b => a == b
  | .sequence a, .sequence b => areSame a b
  | .mapping a, .mapping b => haveSame a b
  | .tagged s a, .tagged t b => s == t && isSame a b
  | _, _ => false
def areSame : List Value → List Value → Bool
  | [], [] => true
  | a :: as, b :: bs => isSame a b && areSame as bs
  | _, _ => false
def haveSame : List (Value × Value) → List (Value × Value) → Bool
  | [], [] => true
  | (j, a) :: as, (k, b) :: bs => isSame j k && isSame a b && haveSame as bs
  | _, _ => false
end

def untagged : Value → Value
  | .tagged _ v => v.untagged
  | v => v

def isNull (v : Value) : Bool :=
  match v.untagged with
  | .null => true
  | _ => false

/-- The whole numbers that can be held. -/
def fits (i : Int) : Bool := Int64.minValue.toInt ≤ i && i < UInt64.size

/-- The whole numbers that are refused when they cannot be held; beyond, digits are read as a
float. -/
def isWide (i : Int) : Bool := -((1 <<< 127 : Nat) : Int) ≤ i && i < (1 <<< 128 : Nat)

def ofPlainFloat (s : String) : Value :=
  if isPaddedText s then .string s
  else match toFloat? s with
    | some x => .float x
    | none => .string s

/-- What text without quotes stands for. -/
def ofPlain (s : String) : Except Fault Value :=
  if s.isEmpty || Yaml.isNull s then .ok .null
  else match toBool? s with
    | some b => .ok (.bool b)
    | none =>
      match toInt? s with
      | some i =>
        if fits i then .ok (.int i)
        else if isWide i then .error .number
        else .ok (ofPlainFloat s)
      | none => .ok (ofPlainFloat s)

/-- The tag of a kind of scalar that every text knows. -/
def coreTag (name : String) : String := "tag:yaml.org,2002:" ++ name

/-- What text stands for whose tag tells. -/
def ofTyped (tag s : String) : Except Fault Value :=
  let orFault (v : Option Value) : Except Fault Value := v.elim (.error .tag) .ok
  if tag = coreTag "bool" then orFault ((toBool? s).map .bool)
  else if tag = coreTag "int" then
    match toInt? s with
    | some i => if fits i then .ok (.int i) else .error .number
    | none => .error .tag
  else if tag = coreTag "float" then orFault ((toFloat? s).map .float)
  else if tag = coreTag "null" then orFault (if Yaml.isNull s then some .null else none)
  else .ok (.string s)

/-- The name of a tag of the text's own, which starts with an exclamation mark. -/
def ownTag? (tag : Option String) : Option String :=
  tag.bind fun t =>
    match t.toList with
    | ['!'] => some t
    | '!' :: cs => some (String.ofList cs)
    | _ => none

/-- A scalar by its style, or by its tag where that says what it is. -/
def ofScalar (tag : Option String) (style : Style) (s : String) : Except Fault Value :=
  match ownTag? tag, tag with
  | some name, _ => (.tagged name ·) <$> if style = .plain then ofPlain s else .ok (.string s)
  | none, some t => ofTyped t s
  | none, none => if style = .plain then ofPlain s else .ok (.string s)

def withTag (tag : Option String) (v : Value) : Value :=
  match ownTag? tag with
  | some name => .tagged name v
  | none => v

mutual
/-- The value of a node with no more than some levels of collections. -/
def ofNode : Nat → Node → Except Fault Value
  | _, .scalar tag style s => ofScalar tag style s
  | 0, _ => .error .depth
  | levels + 1, .sequence tag items => do
    return withTag tag (.sequence (← ofItems levels items))
  | levels + 1, .mapping tag entries => do
    return withTag tag (.mapping (← ofEntries levels [] entries))
def ofItems : Nat → List Node → Except Fault (List Value)
  | _, [] => .ok []
  | levels, n :: ns => do
    let v ← ofNode levels n
    return v :: (← ofItems levels ns)
/-- The entries of a mapping, in order, with keys that differ from each other and from those
before. -/
def ofEntries : Nat → List Value → List (Node × Node) → Except Fault (List (Value × Value))
  | _, _, [] => .ok []
  | levels, before, (k, n) :: rest => do
    let key ← ofNode levels k
    if before.any key.isSame then throw .repeatedKey
    let v ← ofNode levels n
    return (key, v) :: (← ofEntries levels (key :: before) rest)
end

end Value

end Qubo.Yaml

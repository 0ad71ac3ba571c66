import Qubo.Yaml.Token

/-!
YAML documents as trees of nodes, with aliases replaced by the nodes they refer to.
-/
namespace Qubo.Yaml

inductive Node where
  | scalar (tag : Option String) (style : Style) (text : String)
  | sequence (tag : Option String) (items : List Node)
  | mapping (tag : Option String) (entries : List (Node × Node))
  deriving Repr

def Node.nothing : Node := .scalar none .plain ""

/-- What is left to read of a document, with the names it has given so far. -/
structure Composing where
  tokens : List Token
  anchors : List (String × Node)
  handles : List (String × String)

/-- A step in composing nodes. -/
abbrev Compose := StateT Composing (Except Fault)

namespace Compose

def peek : Compose (Option Token) := do return (← get).tokens.head?

def drop : Compose Unit := modify fun s => { s with tokens := s.tokens.drop 1 }

/-- Takes the next token if it is `t`. -/
def takes (t : Token) : Compose Bool := do
  if (← peek) == some t then drop; return true else return false

def nextIn (ts : List Token) : Compose Bool := do return (← peek).any ts.contains

/-- The handles that need no directive. -/
def standardHandles : List (String × String) := [("!", "!"), ("!!", "tag:yaml.org,2002:")]

def fullTag (handle suffix : String) : Compose String := do
  if handle.isEmpty then return suffix
  match ((← get).handles ++ standardHandles).lookup handle with
  | some replacement => return replacement ++ suffix
  | none => throw .tag

/-- What may stand before a node, in either order. -/
structure Properties where
  anchor : Option String
  tag : Option String

def Properties.isEmpty (p : Properties) : Bool := p.anchor.isNone && p.tag.isNone

def anchor? : Compose (Option String) := do
  match ← peek with
  | some (.anchor name) => drop; return some name
  | _ => return none

def tag? : Compose (Option String) := do
  match ← peek with
  | some (.tag handle suffix) => drop; return some (← fullTag handle suffix)
  | _ => return none

def properties : Compose Properties := do
  match ← anchor? with
  | some name => return ⟨some name, ← tag?⟩
  | none =>
    match ← tag? with
    | some tag => return ⟨← anchor?, some tag⟩
    | none => return ⟨none, none⟩

def bind (anchor : Option String) (n : Node) : Compose Node := do
  match anchor with
  | some name => modify fun s => { s with anchors := (name, n) :: s.anchors }; return n
  | none => return n

/-- Where a node stands: in a flow collection, as an item or a document of its own, or in a
block mapping, where a sequence need not be indented. -/
inductive Position where
  | flow
  | block
  | inMapping
  deriving DecidableEq

mutual
def node : Nat → Position → Compose Node
  | 0, _ => throw .arrangement
  | n + 1, position => do
    match ← peek with
    | some (.reference name) =>
      drop
      match (← get).anchors.lookup name with
      | some referred => return referred
      | none => throw .anchor
    | _ =>
      let p ← properties
      bind p.anchor (← content n position p)
/-- A node behind its properties. -/
def content : Nat → Position → Properties → Compose Node
  | 0, _, _ => throw .arrangement
  | n + 1, position, p => do
    match ← peek with
    | some (.scalar style text) => drop; return .scalar p.tag style text
    | some .flowSequence => drop; return .sequence p.tag (← flowItems n true)
    | some .flowMapping => drop; return .mapping p.tag (← flowEntries n true)
    | some .blockSequence =>
      if position = .flow then throw .arrangement
      drop; return .sequence p.tag (← blockItems n)
    | some .blockMapping =>
      if position = .flow then throw .arrangement
      drop; return .mapping p.tag (← blockEntries n)
    | some .blockEntry =>
      if position = .inMapping then return .sequence p.tag (← bareItems n)
      else if p.isEmpty then throw .arrangement
      else return .scalar p.tag .plain ""
    | _ => if p.isEmpty then throw .arrangement else return .scalar p.tag .plain ""
/-- A node, or nothing if one of some tokens follows. -/
def nodeUnless : Nat → List Token → Position → Compose Node
  | 0, _, _ => throw .arrangement
  | n + 1, ends, position => do
    if ← nextIn ends then return .nothing else node n position
def blockItems : Nat → Compose (List Node)
  | 0 => throw .arrangement
  | n + 1 => do
    if ← takes .blockEntry then
      let item ← nodeUnless n [.blockEntry, .blockEnd] .block
      return item :: (← blockItems n)
    else if ← takes .blockEnd then return []
    else throw .arrangement
/-- The items of a sequence that is not indented; it ends where no item follows. -/
def bareItems : Nat → Compose (List Node)
  | 0 => throw .arrangement
  | n + 1 => do
    if ← takes .blockEntry then
      let item ← nodeUnless n [.blockEntry, .key, .value, .blockEnd] .block
      return item :: (← bareItems n)
    else return []
def blockEntries : Nat → Compose (List (Node × Node))
  | 0 => throw .arrangement
  | n + 1 => do
    if ← takes .key then
      let key ← nodeUnless n [.key, .value, .blockEnd] .inMapping
      let value ←
        if ← takes .value then nodeUnless n [.key, .value, .blockEnd] .inMapping
        else pure .nothing
      return (key, value) :: (← blockEntries n)
    else if ← takes .blockEnd then return []
    else throw .arrangement
/-- The value of an entry of a flow collection that ends with some token. -/
def flowValue : Nat → Token → Compose Node
  | 0, _ => throw .arrangement
  | n + 1, close => do
    if ← takes .value then nodeUnless n [.flowEntry, close] .flow else return .nothing
/-- The items of a flow sequence; an item with a key is a mapping of one entry. -/
def flowItems : Nat → Bool → Compose (List Node)
  | 0, _ => throw .arrangement
  | n + 1, first => do
    if ← takes .flowSequenceEnd then return []
    if !first then
      if !(← takes .flowEntry) then throw .arrangement
    if ← takes .flowSequenceEnd then return []
    if ← takes .key then
      let key ← nodeUnless n [.value, .flowEntry, .flowSequenceEnd] .flow
      let value ← flowValue n .flowSequenceEnd
      return .mapping none [(key, value)] :: (← flowItems n false)
    else
      let item ← node n .flow
      return item :: (← flowItems n false)
/-- The entries of a flow mapping; an entry without a colon has no value. -/
def flowEntries : Nat → Bool → Compose (List (Node × Node))
  | 0, _ => throw .arrangement
  | n + 1, first => do
    if ← takes .flowMappingEnd then return []
    if !first then
      if !(← takes .flowEntry) then throw .arrangement
    if ← takes .flowMappingEnd then return []
    if ← takes .key then
      let key ← nodeUnless n [.value, .flowEntry, .flowMappingEnd] .flow
      let value ← flowValue n .flowMappingEnd
      return (key, value) :: (← flowEntries n false)
    else
      let key ← node n .flow
      return (key, .nothing) :: (← flowEntries n false)
end

/-- The directives before a document. Versions of the language from 1.1 to 1.2 are read. -/
def directives : Nat → Bool → Compose Unit
  | 0, _ => throw .directive
  | n + 1, versioned => do
    match ← peek with
    | some (.version major minor) =>
      if versioned || major ≠ 1 || (minor ≠ 1 && minor ≠ 2) then throw .directive
      drop
      directives n true
    | some (.handle name replacement) =>
      if ((← get).handles.lookup name).isSome then throw .directive
      modify fun s => { s with handles := (name, replacement) :: s.handles }
      drop
      directives n versioned
    | _ => return

def isDirective : Token → Bool
  | .version _ _ | .handle _ _ => true
  | _ => false

/-- The document that makes up a text. -/
def document (bound : Nat) : Compose Node := do
  match ← peek with
  | none => return .nothing
  | some t =>
    let root ←
      if isDirective t || t == .documentStart then do
        directives bound false
        if !(← takes .documentStart) then throw .documents
        match ← peek with
        | none => pure .nothing
        | some t =>
          if isDirective t || t == .documentStart || t == .documentEnd then pure .nothing
          else node bound .block
      else node bound .block
    modify fun s => { s with tokens := s.tokens.dropWhile (· == .documentEnd) }
    if (← peek).isSome then throw .documents
    return root

end Compose

/-- The only document of a text; nothing stands for an empty text. -/
def Node.read (text : String) : Except Fault Node := do
  let tokens ← Token.ofText text
  let (root, _) ← (Compose.document (3 * tokens.length + 3)).run ⟨tokens, [], []⟩
  return root

end Qubo.Yaml

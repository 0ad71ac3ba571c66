import Qubo.Json.Reader
import Qubo.Json.Writer
import Qubo.Problem
import Qubo.Schedule

/-!
The JSON form of matrices, problems, assignments, schedules and names. Fields may come in any
order, and fields of other names are passed over, except in a schedule. A record may also be
written as an array of its values in order.
-/
namespace Qubo

inductive SnapshotError where
  /-- Not the JSON text of a value of the kind that was asked for. -/
  | malformed
  /-- A matrix with a number of values that is not that of its declared shape. -/
  | matrixSize (values rows cols : Nat)
  deriving DecidableEq, Repr

/-- The text of an error that has one of its own. -/
def SnapshotError.message? : SnapshotError → Option String
  | .malformed => none
  | .matrixSize values rows cols =>
    some s!"matrix data holds {values} values but {rows}x{cols} were declared"

namespace Snapshot

abbrev Decoded (β : Type) := Except SnapshotError β

def required {β : Type} : Option β → Decoded β
  | some x => .ok x
  | none => .error .malformed

def float : Json → Decoded Float
  | .number n => required n.toFloat?
  | _ => .error .malformed

def word : Json → Decoded Nat
  | .number n => required n.toWord?
  | _ => .error .malformed

def byte (j : Json) : Decoded UInt8 := do
  let n ← word j
  if n < 256 then return UInt8.ofNat n else throw .malformed

def list {β : Type} (item : Json → Decoded β) : Json → Decoded (List β)
  | .array items => items.mapM item
  | _ => .error .malformed

/-- The fields of a record, or the values of an array under the record's names. -/
def entries (names : List String) : Json → Decoded (List (String × Json))
  | .object fields => .ok fields
  | .array items =>
    if items.length ≤ names.length then .ok (names.zip items) else .error .malformed
  | _ => .error .malformed

/-- Fills a place that must still be empty. -/
def once {β : Type} (place : Option β) (v : Decoded β) : Decoded (Option β) :=
  match place with
  | none => some <$> v
  | some _ => .error .malformed

/-- The value that a whole text holds. What is wrong inside it is told before what follows it. -/
def ofText {β : Type} (decode : Json → Decoded β) (text : String) : Decoded β := do
  let (v, rest) ← required (Json.readStart text.toList)
  let x ← decode v
  if (Json.skipBlank rest).isEmpty then return x else throw .malformed

/-! Matrices -/

structure MatrixDraft where
  rows : Option Nat
  cols : Option Nat
  data : Option (List Float)

def MatrixDraft.add (d : MatrixDraft) : String × Json → Decoded MatrixDraft
  | ("rows", v) => do return { d with rows := ← once d.rows (word v) }
  | ("cols", v) => do return { d with cols := ← once d.cols (word v) }
  | ("data", v) => do return { d with data := ← once d.data (list float v) }
  | _ => .ok d

def matrix (j : Json) : Decoded (Matrix Float) := do
  let d ← (← entries ["rows", "cols", "data"] j).foldlM MatrixDraft.add ⟨none, none, none⟩
  let rows ← required d.rows
  let cols ← required d.cols
  let data ← required d.data
  match Matrix.ofArray? rows cols data.toArray with
  | some m => return m
  | none => throw (.matrixSize data.length rows cols)

def ofMatrix (m : Matrix Float) : Json :=
  .object [("rows", .ofNat m.rows), ("cols", .ofNat m.cols), ("data", .ofFloats m.data.toList)]

/-! Assignments -/

def bits (j : Json) : Decoded Bits := Bits.mk <$> list byte j

def ofBits (b : Bits) : Json := .array (b.values.map fun v => .ofNat v.toNat)

structure PairDraft where
  x0 : Option Bits
  x1 : Option Bits

def PairDraft.add (d : PairDraft) : String × Json → Decoded PairDraft
  | ("x0", v) => do return { d with x0 := ← once d.x0 (bits v) }
  | ("x1", v) => do return { d with x1 := ← once d.x1 (bits v) }
  | _ => .ok d

def bitsPair (j : Json) : Decoded BitsPair := do
  let d ← (← entries ["x0", "x1"] j).foldlM PairDraft.add ⟨none, none⟩
  return ⟨← required d.x0, ← required d.x1⟩

def assignment : Json → Decoded Assignment
  | .object [("dense", v)] => .dense <$> bits v
  | .object [("bipartite", v)] => .bipartite <$> bitsPair v
  | _ => .error .malformed

def ofAssignment : Assignment → Json
  | .dense x => .object [("dense", ofBits x)]
  | .bipartite x => .object [("bipartite", .object [("x0", ofBits x.x0), ("x1", ofBits x.x1)])]

/-! Problems -/

structure ProblemDraft where
  b0 : Option (List Float)
  b1 : Option (List Float)
  w : Option (Matrix Float)

def ProblemDraft.addDense (d : ProblemDraft) : String × Json → Decoded ProblemDraft
  | ("w", v) => do return { d with w := ← once d.w (matrix v) }
  | _ => .ok d

def ProblemDraft.addBipartite (d : ProblemDraft) : String × Json → Decoded ProblemDraft
  | ("b0", v) => do return { d with b0 := ← once d.b0 (list float v) }
  | ("b1", v) => do return { d with b1 := ← once d.b1 (list float v) }
  | ("w", v) => do return { d with w := ← once d.w (matrix v) }
  | _ => .ok d

/-- The field that names the graph family, and what is left without it. An array begins with
that name. -/
def tagged : Json → Decoded (String × Json)
  | .object fields =>
    match fields.partition (·.1 == "graph") with
    | ([(_, .string tag)], others) => .ok (tag, .object others)
    | _ => .error .malformed
  | .array (.string tag :: items) => .ok (tag, .array items)
  | _ => .error .malformed

def problem (j : Json) : Decoded (Problem Float) := do
  unless j.isReadable do throw .malformed
  match ← tagged j with
  | ("dense", body) => do
    let d ← (← entries ["w"] body).foldlM ProblemDraft.addDense ⟨none, none, none⟩
    return .dense (← required d.w)
  | ("rbm", body) => do
    let d ← (← entries ["b0", "b1", "w"] body).foldlM ProblemDraft.addBipartite ⟨none, none, none⟩
    return .bipartite ⟨← required d.b0, ← required d.b1, ← required d.w⟩
  | _ => throw .malformed

def ofProblem : Problem Float → Json
  | .dense w => .object [("graph", .string "dense"), ("w", ofMatrix w)]
  | .bipartite p =>
    .object [("graph", .string "rbm"), ("b0", .ofFloats p.b0), ("b1", .ofFloats p.b1),
      ("w", ofMatrix p.w)]

/-! Schedules -/

structure ScheduleDraft where
  gStart : Option Float
  gEnd : Option Float
  tau : Option Float
  kt : Option Float
  trotters : Option (Option Nat)

def optionalWord : Json → Decoded (Option Nat)
  | .null => .ok none
  | j => some <$> word j

def ScheduleDraft.add (d : ScheduleDraft) : String × Json → Decoded ScheduleDraft
  | ("g_start", v) => do return { d with gStart := ← once d.gStart (float v) }
  | ("g_end", v) => do return { d with gEnd := ← once d.gEnd (float v) }
  | ("tau", v) => do return { d with tau := ← once d.tau (float v) }
  | ("kt", v) => do return { d with kt := ← once d.kt (float v) }
  | ("trotters", v) => do return { d with trotters := ← once d.trotters (optionalWord v) }
  | _ => .error .malformed

/-- A schedule; what it leaves out is taken from the standard one. -/
def schedule (j : Json) : Decoded (Schedule Float) := do
  let names := ["g_start", "g_end", "tau", "kt", "trotters"]
  let d ← (← entries names j).foldlM ScheduleDraft.add ⟨none, none, none, none, none⟩
  let s : Schedule Float := .standard
  return {
    gStart := d.gStart.getD s.gStart
    gEnd := d.gEnd.getD s.gEnd
    tau := d.tau.getD s.tau
    kt := d.kt.getD s.kt
    trotters := d.trotters.getD s.trotters }

/-! Names -/

/-- A name with an exact spelling, as a string or as the one field of an object, with null. -/
def named {β : Type} (ofName? : String → Option β) : Json → Decoded β
  | .string s => required (ofName? s)
  | .object [(s, .null)] => required (ofName? s)
  | _ => .error .malformed

end Snapshot

def Problem.toJson (p : Problem Float) : String := (Snapshot.ofProblem p).pretty

def Problem.ofJson (text : String) : Except SnapshotError (Problem Float) :=
  Snapshot.ofText Snapshot.problem text

end Qubo

import Qubo.Benchmark.Trial
import Qubo.Json.Writer
import Qubo.Log

/-!
Rows: one for each solver in each trial, as a line of JSON and as a log record.
-/
namespace Qubo.Benchmark

structure Row (α : Type) where
  runId : String
  instanceIndex : Nat
  trialIndex : Nat
  instanceSeed : UInt64
  solverSeed : UInt64
  graph : Graph
  direction : Direction
  result : SolverResult α
  gap : α
  hit : Bool
  deriving DecidableEq, Repr

namespace Row

def trialId {α : Type} (r : Row α) : String := Benchmark.trialId r.instanceIndex r.trialIndex

def toJson (r : Row Float) : Json :=
  .object [
    ("run_id", .string r.runId),
    ("trial_id", .string r.trialId),
    ("instance_index", Json.ofNat r.instanceIndex),
    ("trial_index", Json.ofNat r.trialIndex),
    ("instance_seed", Json.ofNat r.instanceSeed.toNat),
    ("solver_seed", Json.ofNat r.solverSeed.toNat),
    ("graph", .string r.graph.name),
    ("optimize", .string r.direction.name),
    ("solver", .string r.result.solver),
    ("kind", .string r.result.strategy.name),
    ("energy", Json.ofFloat r.result.energy),
    ("gap", Json.ofFloat r.gap),
    ("hit", .bool r.hit),
    ("assignment", .string r.result.assignment.text),
    ("candidates", Json.ofNat r.result.candidates),
    ("steps", Json.ofNat r.result.steps),
    ("elapsed_ms", Json.ofFloat r.result.elapsedMs)]

def line (r : Row Float) : String := r.toJson.compact ++ "\n"

def lines (rows : List (Row Float)) : String := String.join (rows.map line)

def record (r : Row Float) : Log.Record :=
  ⟨Log.trialTarget, .info,
    [("run_id", .text r.runId), ("trial_id", .text r.trialId), ("solver", .text r.result.solver),
      ("kind", .text r.result.strategy.name), ("energy", .real r.result.energy),
      ("gap", .real r.gap), ("steps", .count r.result.steps),
      ("elapsed_ms", .real r.result.elapsedMs)]⟩

end Row

end Qubo.Benchmark

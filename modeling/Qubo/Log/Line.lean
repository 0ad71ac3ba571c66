import Qubo.Json.Writer
import Qubo.Log

/-!
Log records as lines of JSON.
-/
namespace Qubo.Log

def Value.toJson : Value → Json
  | .text s => .string s
  | .count n => Json.ofNat n
  | .real x => Json.ofFloat x
  | .flag b => .bool b

def Record.toJson (r : Record) : Json :=
  .object [
    ("level", .string r.level.name),
    ("fields", .object (r.fields.map fun (name, v) => (name, v.toJson))),
    ("target", .string r.target)]

def Record.line (r : Record) : String := r.toJson.compact ++ "\n"

def lines (f : Filter) (records : List Record) : String :=
  String.join ((records.filter f.keeps).map Record.line)

end Qubo.Log

/-!
Command lines: long and short options, values behind an equals sign or in the next argument.
-/
namespace Qubo.CommandLine

inductive Switch where
  | config
  | runId
  | instances
  | trials
  | seed
  | validateOnly
  | logSolverDetails
  | help
  | version
  deriving DecidableEq, Repr

namespace Switch

def all : List Switch :=
  [.config, .runId, .instances, .trials, .seed, .validateOnly, .logSolverDetails, .help, .version]

def long : Switch → String
  | .config => "config"
  | .runId => "run-id"
  | .instances => "instances"
  | .trials => "trials"
  | .seed => "seed"
  | .validateOnly => "validate-only"
  | .logSolverDetails => "log-solver-details"
  | .help => "help"
  | .version => "version"

def short? : Switch → Option Char
  | .config => some 'c'
  | .help => some 'h'
  | .version => some 'V'
  | _ => none

/-- What the value of a switch stands for; switches without a value have none. -/
def valueName? : Switch → Option String
  | .config => some "FILE"
  | .runId => some "RUN_ID"
  | .instances | .trials => some "COUNT"
  | .seed => some "SEED"
  | _ => none

def takesValue (s : Switch) : Bool := s.valueName?.isSome

def about : Switch → String
  | .config => "Path to the YAML configuration file [default: bench/bench.yaml]"
  | .runId => "Override the run identifier (substitutes \x7brun_id\x7d templates)"
  | .instances => "Override the number of problem instances"
  | .trials => "Override the number of trials per instance"
  | .seed => "Override the RNG seed for problem generation"
  | .validateOnly => "Exit after validating the configuration (no benchmark is run)"
  | .logSolverDetails => "Keep per-solve solver events in the telemetry log regardless of config"
  | .help => "Print help"
  | .version => "Print version"

def ofLong? (name : String) : Option Switch := all.find? (·.long == name)

def ofShort? (c : Char) : Option Switch := all.find? (·.short? == some c)

end Switch

structure Options where
  config : Option String
  runId : Option String
  instances : Option Nat
  trials : Option Nat
  seed : Option Nat
  validateOnly : Bool
  logSolverDetails : Bool
  deriving DecidableEq, Repr

def Options.none : Options := ⟨.none, .none, .none, .none, .none, false, false⟩

inductive Misuse where
  | unexpected (argument : String)
  | missingValue (s : Switch)
  | unexpectedValue (s : Switch)
  | invalidValue (s : Switch) (value : String)
  | repeated (s : Switch)
  deriving DecidableEq, Repr

def Misuse.message : Misuse → String
  | .unexpected argument => s!"unexpected argument '{argument}' found"
  | .missingValue s => s!"a value is required for '--{s.long}' but none was supplied"
  | .unexpectedValue s => s!"unexpected value for '--{s.long}' found; no more were expected"
  | .invalidValue s value => s!"invalid value '{value}' for '--{s.long}'"
  | .repeated s => s!"the argument '--{s.long}' cannot be used multiple times"

/-- What reading a command line ends with before its end. -/
inductive Stop where
  | help
  | version
  | misuse (m : Misuse)
  deriving DecidableEq, Repr

/-- A whole number that fits a 64-bit word, with a plus sign or without. -/
def word? (text : String) : Option Nat :=
  let digits := match text.toList with
    | '+' :: cs => cs
    | cs => cs
  if digits.isEmpty || !digits.all Char.isDigit then .none
  else
    let n := digits.foldl (fun n c => 10 * n + (c.toNat - 48)) 0
    if n < UInt64.size then some n else .none

def wordFor (s : Switch) (value : String) : Except Stop Nat :=
  match word? value with
  | some n => .ok n
  | .none => .error (.misuse (.invalidValue s value))

namespace Options

def has (o : Options) : Switch → Bool
  | .config => o.config.isSome
  | .runId => o.runId.isSome
  | .instances => o.instances.isSome
  | .trials => o.trials.isSome
  | .seed => o.seed.isSome
  | .validateOnly => o.validateOnly
  | .logSolverDetails => o.logSolverDetails
  | .help | .version => false

/-- Applies a switch with its value, which is empty for those that take none. -/
def apply (o : Options) (s : Switch) (value : String) : Except Stop Options :=
  if o.has s then .error (.misuse (.repeated s))
  else
    match s with
    | .config =>
      if value.isEmpty then .error (.misuse (.missingValue s))
      else .ok { o with config := some value }
    | .runId => .ok { o with runId := some value }
    | .instances => do return { o with instances := some (← wordFor s value) }
    | .trials => do return { o with trials := some (← wordFor s value) }
    | .seed => do return { o with seed := some (← wordFor s value) }
    | .validateOnly => .ok { o with validateOnly := true }
    | .logSolverDetails => .ok { o with logSolverDetails := true }
    | .help => .error .help
    | .version => .error .version

end Options

inductive Argument where
  | long (name : String) (value : Option String)
  | short (letters : List Char)
  /-- The mark behind which nothing is a switch. -/
  | separator
  | bare

def Argument.ofText (text : String) : Argument :=
  match text.toList with
  | ['-', '-'] => .separator
  | '-' :: '-' :: cs =>
    let name := cs.takeWhile (· ≠ '=')
    match cs.dropWhile (· ≠ '=') with
    | _ :: value => .long (String.ofList name) (some (String.ofList value))
    | [] => .long (String.ofList name) .none
  | ['-'] => .bare
  | '-' :: cs => .short cs
  | _ => .bare

/-- Whether an argument can be the value of the switch before it. -/
def isValue (text : String) : Bool :=
  match Argument.ofText text with
  | .bare => true
  | _ => false

/-- A value behind a short switch, with or without an equals sign. -/
def attached : List Char → Option String
  | [] => .none
  | '=' :: cs => some (String.ofList cs)
  | cs => some (String.ofList cs)

/-- Reads short switches written together. A switch that takes a value takes all that is left,
or is returned if nothing is left. -/
def readShort (text : String) (o : Options) :
    List Char → Except Stop (Options × Option Switch)
  | [] => .ok (o, .none)
  | c :: cs =>
    match Switch.ofShort? c with
    | .none => .error (.misuse (.unexpected text))
    | some s =>
      if s.takesValue then
        match attached cs with
        | some value => do return (← o.apply s value, .none)
        | .none => .ok (o, some s)
      else do readShort text (← o.apply s "") cs

/-- Reads one argument. The result names a switch that waits for its value. -/
def readArgument (text : String) (o : Options) : Except Stop (Options × Option Switch) :=
  match Argument.ofText text with
  | .long name value =>
    match Switch.ofLong? name, value with
    | .none, _ => .error (.misuse (.unexpected text))
    | some s, some v =>
      if s.takesValue then do return (← o.apply s v, .none)
      else .error (.misuse (.unexpectedValue s))
    | some s, .none =>
      if s.takesValue then .ok (o, some s) else do return (← o.apply s "", .none)
  | .short letters => readShort text o letters
  | .separator | .bare => .error (.misuse (.unexpected text))

/-- Reads arguments, where a switch may wait for its value. -/
def readAll : Option Switch → Options → List String → Except Stop Options
  | .none, o, [] => .ok o
  | some s, _, [] => .error (.misuse (.missingValue s))
  | some s, o, text :: rest =>
    if isValue text then do readAll .none (← o.apply s text) rest
    else .error (.misuse (.missingValue s))
  | .none, o, text :: rest =>
    match Argument.ofText text, rest with
    | .separator, [] => .ok o
    | .separator, other :: _ => .error (.misuse (.unexpected other))
    | _, _ => do
      let (o, waiting) ← readArgument text o
      readAll waiting o rest

def Options.ofArguments (arguments : List String) : Except Stop Options :=
  readAll .none .none arguments

end Qubo.CommandLine

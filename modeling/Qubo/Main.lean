import Qubo.CommandLine.Program

/-!
The command line program on the files of the system.
-/
namespace Qubo
open Files

def faultOf (e : IO.Error) : Fault :=
  match e with
  | .noFileOrDirectory .. => .notFound
  | .alreadyExists .. => .alreadyExists
  | .inappropriateType _ number _ => if number = 20 then .notDirectory else .isDirectory
  | e => .other (toString e)

def attempt {β : Type} (operation : IO β) : IO (Except Fault β) := do
  match ← operation.toBaseIO with
  | .ok x => return .ok x
  | .error e => return .error (faultOf e)

def withFile {β : Type} (path : String) (mode : IO.FS.Mode) (act : IO.FS.Handle → IO β) :
    IO (Except Fault β) :=
  attempt do act (← IO.FS.Handle.mk path mode)

instance : Host IO where
  makeDirectories path := attempt do if !path.isEmpty then IO.FS.createDirAll path
  write path content := withFile path .write fun h => h.putStr content
  append path content := withFile path .append fun h => h.putStr content
  read path := withFile path .read fun h => h.readBinToEnd
  isThere path := do return (← attempt (IO.FS.realPath path)).toBool
  print line := do
    let out ← IO.getStdout
    out.putStrLn line
  time f := do
    let start ← IO.monoNanosNow
    let x ← IO.lazyPure f
    let stop ← IO.monoNanosNow
    return (x, (stop - start).toFloat / 1000000.0)

end Qubo

def main (arguments : List String) : IO UInt32 := do
  let ending ← (Qubo.CommandLine.run arguments : IO Qubo.CommandLine.Ending)
  match ending with
  | .success => pure ()
  | .misuse misuse => IO.eprintln s!"error: {misuse.message}"
  | .failure failure => IO.eprintln s!"Error: {failure.message}"
  return ending.code

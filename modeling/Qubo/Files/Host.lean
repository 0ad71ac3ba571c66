/-!
What the benchmark needs of its surroundings: files, a place to print lines, and a clock. The
program is written once for any host.
-/
namespace Qubo.Files

inductive Fault where
  | notFound
  | alreadyExists
  | notDirectory
  | isDirectory
  /-- Any other reason, in the words of the system. -/
  | other (text : String)
  deriving DecidableEq, Repr

def Fault.message : Fault → String
  | .notFound => "No such file or directory (os error 2)"
  | .alreadyExists => "File exists (os error 17)"
  | .notDirectory => "Not a directory (os error 20)"
  | .isDirectory => "Is a directory (os error 21)"
  | .other text => text

class Host (m : Type → Type) where
  /-- Makes a directory and those above it, unless they are there. -/
  makeDirectories : String → m (Except Fault Unit)
  /-- Replaces what a file holds. -/
  write : String → String → m (Except Fault Unit)
  /-- Adds to the end of a file, which is made if it is not there. -/
  append : String → String → m (Except Fault Unit)
  read : String → m (Except Fault ByteArray)
  /-- Whether there is a file or a directory. -/
  isThere : String → m Bool
  print : String → m Unit
  /-- Evaluates something, and tells how many milliseconds it took. -/
  time : {β : Type} → (Unit → β) → m (β × Float)

end Qubo.Files

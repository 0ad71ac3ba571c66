/-!
Paths as text: names separated by slashes. A name of one dot stands for nothing, except at the
start of a relative path.
-/
namespace Qubo.Files.Path

def isAbsolute (path : String) : Bool := path.toList.head? == some '/'

/-- The texts between slashes, where `before` has been read of the first one, in reverse. -/
def piecesFrom (before : List Char) : List Char → List String
  | [] => [String.ofList before.reverse]
  | ch :: rest =>
    if ch = '/' then String.ofList before.reverse :: piecesFrom [] rest
    else piecesFrom (ch :: before) rest

def pieces (path : String) : List String := piecesFrom [] path.toList

/-- The parts between slashes, last one first, without the empty ones and the dots at the end. -/
def dropIdle : List String → List String
  | [] => []
  | [part] => [part]
  | part :: before => if part = "" ∨ part = "." then dropIdle before else part :: before

def parts (path : String) : List String := dropIdle (pieces path).reverse

/-- The text of parts in reverse order. -/
def ofParts (absolute : Bool) (parts : List String) : String :=
  match parts with
  | [""] => if absolute then "/" else ""
  | parts => "/".intercalate parts.reverse

/-- The path without its last name; none if it has no name. -/
def parent? (path : String) : Option String :=
  match parts path with
  | [] => none
  | [part] => if part = "" then none else some ""
  | _ :: before => some (ofParts (isAbsolute path) (dropIdle before))

def join (directory name : String) : String :=
  if directory = "" ∨ directory.toList.getLast? = some '/' then directory ++ name
  else s!"{directory}/{name}"

/-- The names on the way from the working directory, or from the root. -/
def names (path : String) : List String :=
  (pieces path).filter fun part => part ≠ "" ∧ part ≠ "."

/-- Whether a path can only be one of a directory. -/
def isDirectoryForm (path : String) : Bool :=
  match (pieces path).reverse with
  | [_] => path = "." ∨ path = ".."
  | last :: _ => last = "" ∨ last = "." ∨ last = ".."
  | [] => false

end Qubo.Files.Path

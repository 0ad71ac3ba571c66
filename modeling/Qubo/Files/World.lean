import Qubo.Files.Host
import Qubo.Files.Path

/-!
A host without side effects: a tree of files, the lines printed so far, and a clock that stands
still. The working directory is the root of the tree.
-/
namespace Qubo.Files

inductive Entry where
  | file (content : ByteArray)
  | directory

/-- The entries of a tree by the names on the way to them; the root is always a directory. -/
structure Tree where
  entries : List (List String × Entry)

namespace Tree

def empty : Tree := ⟨[]⟩

def find? (t : Tree) (names : List String) : Option Entry :=
  if names.isEmpty then some .directory else t.entries.lookup names

/-- Puts an entry at its place, after those made before it. -/
def put (t : Tree) (names : List String) (e : Entry) : Tree :=
  if (t.entries.lookup names).isSome then
    ⟨t.entries.map fun old => if old.1 = names then (names, e) else old⟩
  else ⟨t.entries ++ [(names, e)]⟩

/-- Walks down names from a directory; two dots lead up again. -/
def walk (t : Tree) (directory : List String) : List String → Except Fault (List String)
  | [] => .ok directory
  | name :: rest =>
    if name = ".." then t.walk directory.dropLast rest
    else
      match t.find? (directory ++ [name]) with
      | none => .error .notFound
      | some (.file _) => .error .notDirectory
      | some .directory => t.walk (directory ++ [name]) rest

/-- The place that a path names, of which the last name need not be there. -/
def place (t : Tree) (path : String) : Except Fault (List String) :=
  match (Path.names path).reverse with
  | [] => .ok []
  | last :: before => do
    let directory ← t.walk [] before.reverse
    return if last = ".." then directory.dropLast else directory ++ [last]

/-- The place and the entry that a path names. -/
def look (t : Tree) (path : String) : Except Fault (List String × Entry) := do
  if path.isEmpty then throw .notFound
  let names ← t.place path
  match t.find? names with
  | none => throw .notFound
  | some (.file content) =>
    if Path.isDirectoryForm path then throw .notDirectory else return (names, .file content)
  | some .directory => return (names, .directory)

/-- Makes the directories on the way along some names. -/
def makeAlong (directory : List String) (t : Tree) : List String → Except Fault Tree
  | [] => .ok t
  | name :: rest =>
    if name = ".." then makeAlong directory.dropLast t rest
    else
      let names := directory ++ [name]
      match t.find? names with
      | some .directory => makeAlong names t rest
      | some (.file _) => .error (if rest.isEmpty then .alreadyExists else .notDirectory)
      | none => makeAlong names (t.put names .directory) rest

def makeDirectories (t : Tree) (path : String) : Except Fault Tree :=
  makeAlong [] t (Path.names path)

/-- The place of a file that is to be written, with what it holds. -/
def open? (t : Tree) (path : String) : Except Fault (List String × ByteArray) := do
  if path.isEmpty then throw .notFound
  let names ← t.place path
  match t.find? names with
  | some .directory => throw .isDirectory
  | some (.file content) =>
    if Path.isDirectoryForm path then throw .isDirectory else return (names, content)
  | none => if Path.isDirectoryForm path then throw .isDirectory else return (names, .empty)

def write (t : Tree) (path content : String) : Except Fault Tree := do
  let (names, _) ← t.open? path
  return t.put names (.file content.toUTF8)

def append (t : Tree) (path content : String) : Except Fault Tree := do
  let (names, before) ← t.open? path
  return t.put names (.file (before ++ content.toUTF8))

def read (t : Tree) (path : String) : Except Fault ByteArray := do
  match ← t.look path with
  | (_, .file content) => return content
  | (_, .directory) => throw .isDirectory

end Tree

structure World where
  tree : Tree
  printed : Array String

namespace World

/-- Changes the tree, unless that fails. -/
def change (f : Tree → Except Fault Tree) : StateM World (Except Fault Unit) := fun w =>
  match f w.tree with
  | .ok tree => (.ok (), { w with tree := tree })
  | .error fault => (.error fault, w)

instance : Host (StateM World) where
  makeDirectories path := change (·.makeDirectories path)
  write path content := change (·.write path content)
  append path content := change (·.append path content)
  read path := fun w => (w.tree.read path, w)
  isThere path := fun w => ((w.tree.look path).toBool, w)
  print line := fun w => ((), { w with printed := w.printed.push line })
  time f := fun w => ((f (), 0.0), w)

end World

end Qubo.Files

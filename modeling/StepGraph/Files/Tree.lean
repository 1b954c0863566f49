import StepGraph.Files.Access
import StepGraph.Files.Path
import StepGraph.OrderedMap

/-!
# Trees of files

A working directory and all that is below it, as a value.  Paths are followed part by part from the
working directory; nothing is found above it.  `FileTree.access` gives the accesses to such a tree
as functions on it.
-/

namespace StepGraph

/-- The path of a file or directory below the working directory, without detours. -/
abbrev Location := List String

/-- A working directory and what is below it. -/
structure FileTree where
  files : OrderedMap Location ByteArray
  /-- The directories but for the working directory itself. -/
  directories : List Location

namespace FileTree

def empty : FileTree := ⟨.empty, []⟩

def isDirectory (t : FileTree) (l : Location) : Bool := l.isEmpty || t.directories.contains l

def exists? (t : FileTree) (l : Location) : Bool := t.isDirectory l || t.files.contains l

/-- The longest name of a file, in bytes. -/
def maxNameLength : Nat := 255

/-- The longest path, in bytes. -/
def maxPathLength : Nat := 4095

/-- Follows the parts of a path from a place that exists. -/
def follow (t : FileTree) : Location → List String → Except AccessFault Location
  | l, [] => .ok l
  | l, part :: parts =>
    if !t.isDirectory l then .error .notDirectory
    else if part = "" ∨ part = "." then follow t l parts
    else if part = ".." then
      if l.isEmpty then .error .notFound else follow t l.dropLast parts
    else if maxNameLength < part.utf8ByteSize then .error .nameTooLong
    else if t.exists? (l ++ [part]) then follow t (l ++ [part]) parts
    else .error .notFound

/-- The parts of a path that starts at the working directory. -/
def relativeParts (path : String) : Except AccessFault (List String) :=
  if maxPathLength < path.utf8ByteSize then .error .nameTooLong
  else if path.isEmpty || Path.isAbsolute path then .error .notFound
  else .ok (Path.parts path)

def read (t : FileTree) (path : String) : Except AccessFault ByteArray := do
  let l ← t.follow [] (← relativeParts path)
  match t.files.find? l with
  | some content => return content
  | none => throw .isDirectory

def nameIn (directory l : Location) : Option String :=
  if l.isEmpty || l.dropLast ≠ directory then none else l.getLast?

def list (t : FileTree) (path : String) : Except AccessFault (List String) := do
  let l ← t.follow [] (← relativeParts path)
  if t.isDirectory l then return (t.files.keys ++ t.directories).filterMap (nameIn l)
  else throw .notDirectory

def write (t : FileTree) (path : String) (content : ByteArray) : Except AccessFault FileTree := do
  let parts ← relativeParts path
  let l ← t.follow [] parts.dropLast
  let name := parts.getLastD ""
  let place := l ++ [name]
  if !t.isDirectory l then throw .notDirectory
  else if name = "" ∨ name = "." ∨ name = ".." ∨ t.isDirectory place then throw .isDirectory
  else if maxNameLength < name.utf8ByteSize then throw .nameTooLong
  else return { t with files := t.files.insert place content }

/-- The tree with one more directory, which must have a name of its own. -/
def makeDirectory (t : FileTree) (path : String) : Except AccessFault FileTree := do
  let parts := (← relativeParts path).filter fun part => part ≠ ""
  let l ← t.follow [] parts.dropLast
  let name := parts.getLastD "."
  let place := l ++ [name]
  if !t.isDirectory l then throw .notDirectory
  else if name = "." ∨ name = ".." ∨ t.exists? place then throw .alreadyThere
  else if maxNameLength < name.utf8ByteSize then throw .nameTooLong
  else return { t with directories := t.directories ++ [place] }

def leadsToDirectory (t : FileTree) (path : String) : Bool :=
  match relativeParts path with
  | .ok parts =>
    match t.follow [] parts with
    | .ok l => t.isDirectory l
    | .error _ => false
  | .error _ => false

/-- Puts a changed tree in place of the state. -/
def change (f : FileTree → Except AccessFault FileTree) :
    StateM FileTree (Except AccessFault Unit) :=
  fun t =>
    match f t with
    | .ok t => (.ok (), t)
    | .error fault => (.error fault, t)

/-- The accesses to a tree that is the state of a computation. -/
def access : FileAccess (StateM FileTree) where
  list path := do return (← get).list path
  read path := do return (← get).read path
  write path content := change fun t => t.write path content
  makeDirectory path := change fun t => t.makeDirectory path
  isDirectory path := do return (← get).leadsToDirectory path

/-- The tree with one more directory and those above it, as far as they can be made. -/
def withDirectory (t : FileTree) (path : String) : FileTree :=
  ((access.makeDirectories path).run t).2

/-- The tree with one more file and the directories above it, as far as they can be made. -/
def withFile (t : FileTree) (path : String) (content : ByteArray) : FileTree :=
  let t := t.withDirectory ("/".intercalate (Path.parts path).dropLast)
  (t.write path content).toOption.getD t

end FileTree

end StepGraph

import StepGraph.Files.Path

/-!
# Access to files

What a program needs of a file system, for any monad `m` in which it runs, and why an access can
fail.
-/

namespace StepGraph

/-- Why an access to a file failed. -/
inductive AccessFault
  | notFound
  | notDirectory
  | isDirectory
  | alreadyThere
  | nameTooLong
  /-- Something else, in the words of the system. -/
  | other (description : String)
deriving DecidableEq

def AccessFault.message : AccessFault → String
  | .notFound => "No such file or directory (os error 2)"
  | .notDirectory => "Not a directory (os error 20)"
  | .isDirectory => "Is a directory (os error 21)"
  | .alreadyThere => "File exists (os error 17)"
  | .nameTooLong => "File name too long (os error 36)"
  | .other description => description

/-- The accesses to a file system. -/
structure FileAccess (m : Type → Type) where
  /-- The names of what a directory holds, in any order. -/
  list : String → m (Except AccessFault (List String))
  read : String → m (Except AccessFault ByteArray)
  /-- Replaces what the file holds; it is made if need be. -/
  write : String → ByteArray → m (Except AccessFault Unit)
  /-- Makes a directory; the one above it has to be there. -/
  makeDirectory : String → m (Except AccessFault Unit)
  isDirectory : String → m Bool

namespace FileAccess

variable {m : Type → Type} [Monad m]

/-- Makes a directory, unless it is there. -/
def ensureDirectory (files : FileAccess m) (path : String) : ExceptT AccessFault m Unit :=
  ExceptT.mk do
    match ← files.makeDirectory path with
    | .ok () => return .ok ()
    | .error fault => return if ← files.isDirectory path then .ok () else .error fault

/-- Makes the first one of some directories; the others are those above it, innermost first, and are
made only if it cannot be made without them. -/
def makeBelow (files : FileAccess m) : List String → ExceptT AccessFault m Unit
  | [] => pure ()
  | path :: above => ExceptT.mk do
    match ← (files.ensureDirectory path).run with
    | .error .notFound =>
      match ← (makeBelow files above).run with
      | .ok () => (files.ensureDirectory path).run
      | .error fault => return .error fault
    | made => return made

/-- Makes a directory and those above it, as far as they are not there.  A path that ends in a dot
names a directory that has to be there already. -/
def makeDirectories (files : FileAccess m) (path : String) : ExceptT AccessFault m Unit :=
  files.makeBelow (path :: Path.above path)

/-- Copies a file: the copy is emptied first and then filled, so a file copied onto itself is empty
afterwards. -/
def copy (files : FileAccess m) (source copy : String) : ExceptT AccessFault m Unit := do
  let _ ← ExceptT.mk (files.read source)
  ExceptT.mk (files.write copy ByteArray.empty)
  let content ← ExceptT.mk (files.read source)
  ExceptT.mk (files.write copy content)

end FileAccess

end StepGraph

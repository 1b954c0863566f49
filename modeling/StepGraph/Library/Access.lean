import StepGraph.Library.Basic

/-!
# Loading libraries from files

The steps of loading that need access to files: reading one graph, the records of a directory, and
the graph files that records name.  What is read is handed to the functions of `Library`.
-/

namespace StepGraph.Library

variable {m : Type → Type} [Monad m]

def readGraph (files : FileAccess m) (path : String) : m (Except LoadError Graph) := do
  return graph path (← files.read path)

def readRecords (files : FileAccess m) (directory : String) : m (Except LoadError Records) := do
  match ← files.list directory with
  | .error _ => return .error (.unreadableDirectory directory)
  | .ok names =>
    let contents ← (recordFiles names).mapM fun name => files.read (Path.join directory name)
    return .ok (records contents)

/-- Reads the graph files that records name and loads the records. -/
def loadRecords (files : FileAccess m) (base : String) (registry : Registry) (rs : Records) :
    m Loaded := do
  let graphs ← (graphPaths base rs).mapM fun path => do
    let g ← readGraph files path
    pure (path, g)
  let graphAt (path : String) : Except LoadError Graph :=
    (Entries.find? path graphs).getD (.error (.unreadableGraph path))
  return load graphAt base registry rs

/-- Loads the library in a directory. -/
def loadDirectory (files : FileAccess m) (base : String) (registry : Registry)
    (directory : String) : m (Except LoadError Loaded) := do
  match ← readRecords files directory with
  | .error e => return .error e
  | .ok rs => return .ok (← loadRecords files base registry rs)

end StepGraph.Library

/-!
# Paths

A path is a text whose parts are separated by slashes.  A relative one starts at the working
directory.
-/

namespace StepGraph.Path

/-- The parts of a path, empty ones included. -/
def parts (path : String) : List String :=
  (path.toList.splitOnP (· == '/')).map String.ofList

def isAbsolute (path : String) : Bool := path.toList.head? == some '/'

/-- The path `path` seen from `base`; an absolute one stays as it is. -/
def join (base path : String) : String :=
  if isAbsolute path || base.isEmpty then path
  else if base.toList.getLast? == some '/' then base ++ path
  else base ++ "/" ++ path

/-- The parts of a path that say something: no part is empty, and only the first one may be a single
dot. -/
def steps (path : String) : List String :=
  let further (ps : List String) : List String := ps.filter fun part => part ≠ "" ∧ part ≠ "."
  match parts path with
  | "." :: ps => "." :: further ps
  | ps => further ps

/-- The beginnings of a list, shortest first, without the empty one and the whole list. -/
def beginnings : List String → List (List String)
  | part :: next :: ps => [part] :: (beginnings (next :: ps)).map (part :: ·)
  | _ => []

/-- The directories above a path, innermost first, without the root and what is given by no part. -/
def above (path : String) : List String :=
  let start := if isAbsolute path then "/" else ""
  (beginnings (steps path)).reverse.map fun ps => start ++ "/".intercalate ps

/-- What follows the last dot of a file name, unless the dot is the first character. -/
def extension? (name : String) : Option String :=
  let cs := name.toList
  let after := cs.reverse.takeWhile (· != '.')
  if after.length + 1 < cs.length then some (String.ofList after.reverse) else none

end StepGraph.Path

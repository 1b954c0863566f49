import StepGraph.Json.Reader
import StepGraph.OrderedMap

/-!
# Command lines

The arguments of the program: the name of a command and its options.  An option has a long name and
perhaps a letter; its value follows it as the next argument, or in the same one, after `=` or, for a
letter, at once.  An argument that starts with a dash is no value, unless it is a single dash.
-/

namespace StepGraph

inductive Command
  /-- Shows the artifacts of a library. -/
  | list (directory base : String)
  /-- Runs an artifact of a library, or a built-in step, with parameters. -/
  | run (directory base node : String) (params : OrderedMap String Json)
  /-- Shows what a graph compiles to, with the keys of the exported outputs if there are any. -/
  | inspect (graph : String) (exports : List String)
  /-- Saves a graph, or the named nodes of it, for a new artifact. -/
  | scaffold (graph name : String) (category : Option String) (out : String) (nodes : List String)

namespace Command

structure Flag where
  long : String
  letter : Option Char := none
  /-- May the option come more than once? -/
  repeatable : Bool := false
  /-- May the value be empty? -/
  emptyable : Bool := true

/-- The options with their values, as they come. -/
abbrev Given := List (String × String)

/-- Is the argument an option and no value? -/
def isOption (argument : String) : Bool :=
  match argument.toList with
  | ['-'] => false
  | '-' :: _ => true
  | _ => false

def give (flag : Flag) (value : String) (given : Option Given) : Option Given :=
  if value.isEmpty && !flag.emptyable then none else given.map ((flag.long, value) :: ·)

/-- An argument taken apart: the option, and the value if it is in the same argument. -/
def option? (flags : List Flag) (argument : List Char) : Option (Flag × Option String) :=
  match argument with
  | '-' :: '-' :: cs =>
    let name := String.ofList (cs.takeWhile (· != '='))
    let attached := (cs.dropWhile (· != '=')).tail?
    (flags.find? fun f => f.long == name).map fun f => (f, attached.map String.ofList)
  | '-' :: c :: cs =>
    let attached := match cs with
      | [] => none
      | '=' :: cs => some cs
      | cs => some cs
    (flags.find? fun f => f.letter == some c).map fun f => (f, attached.map String.ofList)
  | _ => none

def readGiven (flags : List Flag) : List String → Option Given
  | [] => some []
  | ["--"] => some []
  | argument :: rest =>
    match option? flags argument.toList with
    | none => none
    | some (flag, some value) => give flag value (readGiven flags rest)
    | some (flag, none) =>
      match rest with
      | [] => none
      | value :: rest => if isOption value then none else give flag value (readGiven flags rest)

/-- Does an option come twice that may come once only? -/
def hasRepeats (flags : List Flag) : Given → Bool
  | [] => false
  | (name, _) :: given =>
    (given.any fun g => g.1 == name && flags.any fun f => f.long == name && !f.repeatable) ||
      hasRepeats flags given

/-- The options of a command line. -/
def options? (flags : List Flag) (arguments : List String) : Option Given :=
  (readGiven flags arguments).filter fun given => !hasRepeats flags given

def values (given : Given) (name : String) : List String :=
  (given.filter fun g => g.1 == name).map Prod.snd

def value? (given : Given) (name : String) : Option String := given.lookup name

/-- A parameter: a name, and after the first `=` a JSON value, or else a text. -/
def parameter? (text : String) : Option (String × Json) :=
  let cs := text.toList
  match (cs.dropWhile (· != '=')).tail? with
  | none => none
  | some cs' =>
    let value := String.ofList cs'
    some (String.ofList (cs.takeWhile (· != '=')), (Json.read? value).getD (.string value))

/-- The parts of a text between commas. -/
def commaParts (text : String) : List String :=
  (text.toList.splitOnP (· == ',')).map String.ofList

def directoryFlag : Flag := { long := "dir", letter := some 'd', emptyable := false }

/-- The option for the directory in which graph files are looked for. -/
def baseFlag : Flag := { long := "base-dir", emptyable := false }

def graphFlag : Flag := { long := "graph", letter := some 'g', emptyable := false }

def readList (arguments : List String) : Option Command := do
  let given ← options? [directoryFlag, baseFlag] arguments
  let directory ← value? given "dir"
  return .list directory ((value? given "base-dir").getD directory)

def readRun (arguments : List String) : Option Command := do
  let given ← options? [directoryFlag, baseFlag, { long := "node", letter := some 'n' },
    { long := "vars", letter := some 'D', repeatable := true }] arguments
  let directory ← value? given "dir"
  let node ← value? given "node"
  let params ← (values given "vars").mapM parameter?
  return .run directory ((value? given "base-dir").getD directory) node (.ofList params)

def readInspect (arguments : List String) : Option Command := do
  let given ← options? [graphFlag, { long := "export", repeatable := true }] arguments
  let graph ← value? given "graph"
  return .inspect graph (values given "export")

def readScaffold (arguments : List String) : Option Command := do
  let given ← options? [graphFlag, { long := "name", letter := some 'n' },
    { long := "category", letter := some 'c' },
    { long := "out", letter := some 'o', emptyable := false },
    { long := "nodes", repeatable := true }] arguments
  let graph ← value? given "graph"
  let name ← value? given "name"
  let out ← value? given "out"
  return .scaffold graph name (value? given "category") out
    ((values given "nodes").flatMap commaParts)

/-- The command that the arguments of the program ask for. -/
def ofArguments? : List String → Option Command
  | "list" :: arguments => readList arguments
  | "run" :: arguments => readRun arguments
  | "inspect" :: arguments => readInspect arguments
  | "scaffold" :: arguments => readScaffold arguments
  | _ => none

end Command

end StepGraph

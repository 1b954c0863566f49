import StepGraph.Command.Basic

/-!
# The program

Carries out the command that the arguments ask for on the files of the system.
-/

namespace StepGraph

/-- What an error of the system means for an access, by its number. -/
def AccessFault.ofCode (code : UInt32) (details : String) : AccessFault :=
  if code = 2 then .notFound
  else if code = 17 then .alreadyThere
  else if code = 20 then .notDirectory
  else if code = 21 then .isDirectory
  else if code = 36 then .nameTooLong
  else .other s!"{details} (os error {code})"

/-- What an error of the system means for an access. -/
def AccessFault.ofSystem : IO.Error → AccessFault
  | .noFileOrDirectory _ code details | .inappropriateType _ code details
  | .alreadyExists _ code details | .invalidArgument _ code details
  | .permissionDenied _ code details | .resourceExhausted _ code details
  | .illegalOperation code details | .otherError code details => ofCode code details
  | e => .other (toString e)

/-- An access of the system. -/
def systemAccess {α : Type} (act : IO α) : IO (Except AccessFault α) := do
  try
    return .ok (← act)
  catch e =>
    return .error (AccessFault.ofSystem e)

/-- The accesses to the files of the system. -/
def systemFiles : FileAccess IO where
  list path := systemAccess do
    let entries ← (← IO.FS.realPath path).readDir
    return (entries.map IO.FS.DirEntry.fileName).toList
  read path := systemAccess (IO.FS.readBinFile path)
  write path content := systemAccess (IO.FS.writeBinFile path content)
  makeDirectory path := systemAccess (IO.FS.createDir path)
  isDirectory path := do
    try (← IO.FS.realPath path).isDir
    catch _ => return false

end StepGraph

/-- Prints what the command gives and ends with its exit code. -/
def main (arguments : List String) : IO UInt32 := do
  let outcome ← StepGraph.Command.execute StepGraph.systemFiles arguments
  IO.print outcome.output
  if !outcome.complaint.isEmpty then IO.eprintln outcome.complaint
  return outcome.exitCode.toUInt32

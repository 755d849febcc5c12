import DomTemplate.Command.Arguments

/-!
# The program

The commands on the real file system, whose paths have to be texts here.
-/

namespace DomTemplate

/-- The system's number for a fault, which some of its calls report negated. -/
def faultNumber (code : UInt32) : UInt32 :=
  min code (0 - code)

/-- The fault that the system reports. -/
def FileFault.ofSystem : IO.Error → FileFault
  | .noFileOrDirectory .. => notFound
  | .alreadyExists .. => alreadyExists
  | .inappropriateType _ code details =>
    if faultNumber code = 20 then notADirectory
    else if faultNumber code = 21 then isADirectory
    else other details
  | .invalidArgument _ code details =>
    if faultNumber code = 36 then nameTooLong else other details
  | fault => other (toString fault)

/-- Runs an action on files and catches its fault. -/
def attempt {α : Type} (action : IO α) : IO (Except FileFault α) := do
  match ← action.toBaseIO with
  | .ok a => return .ok a
  | .error fault => return .error (.ofSystem fault)

instance : FileAccess IO where
  readText path := do
    match ← attempt (IO.FS.readBinFile path.display) with
    | .error fault => return .error fault
    | .ok content =>
      match String.fromUTF8? content with
      | some text => return .ok text
      | none => return .error .notText
  writeText path text := attempt (IO.FS.writeBinFile path.display text.toUTF8)
  createDirectories path := do
    if path.bytes = [] then return .ok () else attempt (IO.FS.createDirAll path.display)
  isPresent path := do return (← attempt (IO.FS.Handle.mk path.display .read)).isOk
  isDirectory path := do
    -- only reading tells a directory from a file
    match ← attempt (IO.FS.readBinFile path.display) with
    | .error .isADirectory => return true
    | _ => return false
  workingDirectory := do return .ofText (toString (← IO.currentDir))

end DomTemplate

open DomTemplate in
def main (arguments : List String) : IO UInt32 := do
  let report : Report ← runCommandLine arguments
  IO.print report.output
  IO.eprint report.messages
  if report.code = 2 then
    IO.eprint helpText
  return report.code

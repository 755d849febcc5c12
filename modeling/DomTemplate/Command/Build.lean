import DomTemplate.Block.Json
import DomTemplate.Command.Basic

/-!
# Building artifacts

All templates are read and compiled before the first artifact is written.  A template that fails is
passed over; a directory or file that cannot be made ends the run.
-/

namespace DomTemplate

structure BuildRequest where
  input : Path
  output : Option Path := none
  svg : Bool := false
  noNormalize : Bool := false
deriving DecidableEq

/-- Where the artifact of a template goes. -/
def BuildRequest.target (request : BuildRequest) (project : Option Project) (path : Path) : Path :=
  match request.output, project with
  | some output, _ => output
  | none, some project => project.outputPath path
  | none, none => artifactBeside path

/-- The directory that has to be there for a file to be written. -/
def neededDirectory (target : Path) : Option Path :=
  target.parent?.filter (·.bytes ≠ [])

section

variable {m : Type → Type} [Monad m] [FileAccess m]

/-- Makes the directory of a file.  The error is a message. -/
def prepare (target : Path) : m (Except String Unit) := do
  match neededDirectory target with
  | none => return .ok ()
  | some directory =>
    match ← FileAccess.createDirectories directory with
    | .ok _ => return .ok ()
    | .error fault =>
      return .error ("cannot create directory '" ++ directory.display ++ "': " ++ fault.message)

/-- Makes the directory of a file and writes the file.  The error is a message. -/
def store (target : Path) (text : String) : m (Except String Unit) := do
  match ← prepare target with
  | .error message => return .error message
  | .ok _ =>
    match ← FileAccess.writeText target text with
    | .ok _ => return .ok ()
    | .error fault =>
      return .error ("cannot write '" ++ target.display ++ "': " ++ fault.message)

/-- Writes the artifacts of compiled templates in order. -/
def storeAll (request : BuildRequest) (project : Option Project) :
    List CompiledFile → m Report
  | [] => pure {}
  | file :: rest =>
    match file.result with
    | .error diagnostic => do
      let report ← storeAll request project rest
      return { report with code := 1 }.after "" [.diagnostic file.path diagnostic]
    | .ok artifact => do
      let target := request.target project file.path
      match ← store target artifact.encode.toText with
      | .error message => return .failure message
      | .ok _ =>
        let report ← storeAll request project rest
        return report.after ""
          [.line ("Compiled " ++ file.path.display ++ " -> " ++ target.display ++ " (" ++
            toString artifact.roots.length ++ " roots)")]

/-- Compiles templates to artifact files. -/
def build (request : BuildRequest) : m Report := do
  match ← resolveInput request.input with
  | .error message => return .failure message
  | .ok inputs =>
    if request.output.isSome && 1 < inputs.entries.length then
      return .failure "--output requires a single template input"
    else
      let options := inputs.options request.svg request.noNormalize
      let files ← compileFiles options inputs.entries
      storeAll request inputs.project files

end

end DomTemplate

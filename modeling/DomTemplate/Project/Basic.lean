import DomTemplate.Compile
import DomTemplate.Files.Access
import DomTemplate.Project.Settings

/-!
# Projects

A project is what a project file sets, with its paths taken relative to the directory of the file.
-/

namespace DomTemplate

structure Project where
  name : String
  version : String
  entries : List Path
  /-- the directory for artifacts; without one they stand next to their templates -/
  output : Option Path
  directory : Path
  dialect : Option Dialect
  normalize : Bool
deriving DecidableEq

/-- The file name of the artifact of a template.  What is no text in the stem is replaced. -/
def artifactFileName (input : Path) : String :=
  (input.fileStem?.map Text.lossy).getD "template" ++ ".tpl.json"

/-- The path of an artifact next to its template. -/
def artifactBeside (input : Path) : Path :=
  input.withFileName (Text.bytes (artifactFileName input))

namespace Project

/-- A project with the given settings in a directory. -/
def ofSettings (directory : Path) (s : Settings) : Project where
  name := s.name
  version := s.version
  entries := s.entries.map fun entry => directory.join (.ofText entry)
  output := s.output.map fun output => directory.join (.ofText output)
  directory
  dialect := s.dialect
  normalize := s.normalize

/-- A project from the path and the text of its file. -/
def ofText (file : Path) (text : String) : Except Diagnostic Project :=
  match Settings.read text with
  | .ok s => .ok (ofSettings (file.parent?.getD (.ofText ".")) s)
  | .error e => .error e.toDiagnostic

/-- The options that a project sets. -/
def options (project : Project) : Options :=
  { normalize := project.normalize, dialect := project.dialect }

/-- Where the artifact of a template goes. -/
def outputPath (project : Project) (input : Path) : Path :=
  match project.output with
  | some directory => directory.join (.ofText (artifactFileName input))
  | none => artifactBeside input

/-- The places where the project file of a directory may be, the nearest first. -/
def candidates (directory : Path) : List Path :=
  directory.ancestors.map (·.join (.ofText projectFileName))

variable {m : Type → Type} [Monad m] [FileAccess m]

/-- Loads a project file. -/
def load (file : Path) : m (Except Diagnostic Project) := do
  match ← FileAccess.readText file with
  | .ok text => return ofText file text
  | .error fault =>
    return .error (.error ("cannot read '" ++ file.display ++ "': " ++ fault.message))

/-- Finds the project file of a directory: the first candidate that is present. -/
def find? (directory : Path) : m (Option Path) :=
  (candidates directory).findM? FileAccess.isPresent

end Project

end DomTemplate

import DomTemplate.Project.Basic
import DomTemplate.Source

/-!
# Inputs and reports of commands
-/

namespace DomTemplate

/-- A template file after compilation. -/
structure CompiledFile where
  path : Path
  /-- the text of the file, empty if it could not be read -/
  source : String
  result : Except Diagnostic Artifact

/-- What a command writes for its user at a time. -/
inductive Notice where
  | line (text : String)
  | diagnostic (file : Path) (content : Diagnostic)

/-- Puts blanks in front of every line of a text. -/
def indented (text : String) : List String :=
  (Text.lines text.toList).map fun line => "    " ++ String.ofList line

/-- The text of a diagnostic: its message, the same at its place if it has one, and below these its
notes and its hint. -/
def Diagnostic.display (file : Path) (d : Diagnostic) : List String :=
  let title :=
    match d.severity with
    | .error => "Error: "
    | .warning => "Warning: "
  let place := d.span.toList.map fun span =>
    "  " ++ file.display ++ ", byte " ++ toString span.start.toNat ++ ": " ++ d.message
  (title ++ d.message) :: place ++ d.notes.flatMap indented ++ d.help.toList.flatMap indented

/-- The text of a notice, with a line feed after each part of it. -/
def Notice.text : Notice → String
  | line text => text ++ "\n"
  | diagnostic file content => String.join ((content.display file).map (· ++ "\n"))

/-- What a command has printed, and the code it ends with. -/
structure Report where
  code : UInt32 := 0
  output : String := ""
  notices : List Notice := []

/-- All that a command has to tell apart from its output. -/
def Report.messages (report : Report) : String :=
  String.join (report.notices.map Notice.text)

/-- A report of failure. -/
def Report.failure (message : String) : Report :=
  { code := 1, notices := [.line ("error: " ++ message)] }

/-- Puts what was printed earlier in front. -/
def Report.after (report : Report) (output : String) (notices : List Notice) : Report :=
  { report with output := output ++ report.output, notices := notices ++ report.notices }

/-- The templates a command works on, with the project they belong to. -/
structure Inputs where
  entries : List Path
  project : Option Project
deriving DecidableEq

/-- The project's options, with those of the command line on top. -/
def Inputs.options (inputs : Inputs) (svg noNormalize : Bool) : Options :=
  let base : Options := (inputs.project.map Project.options).getD {}
  { dialect := if svg then some .svg else base.dialect
    normalize := if noNormalize then false else base.normalize }

section

variable {m : Type → Type} [Monad m] [FileAccess m]

/-- Reads and compiles one template. -/
def compileFile (options : Options) (path : Path) : m CompiledFile := do
  match ← FileAccess.readText path with
  | .ok source =>
    return ⟨path, source, (compileSource source options).mapError SourceError.toDiagnostic⟩
  | .error fault =>
    return ⟨path, "", .error (.error ("cannot read '" ++ path.display ++ "': " ++ fault.message))⟩

/-- Reads and compiles templates in order. -/
def compileFiles (options : Options) (paths : List Path) : m (List CompiledFile) :=
  paths.mapM (compileFile options)

/-- Finds out what to compile: the entries of a project, or a single template, which takes over the
settings of a project around it.  The error is a message. -/
def resolveInput (input : Path) : m (Except String Inputs) := do
  if ← FileAccess.isDirectory input then
    let file := input.join (.ofText projectFileName)
    if ← FileAccess.isPresent file then
      match ← Project.load file with
      | .ok project => return .ok ⟨project.entries, some project⟩
      | .error diagnostic => return .error diagnostic.message
    else return .error ("no " ++ projectFileName ++ " found in '" ++ input.display ++ "'")
  else if input.extension? = some (Text.bytes "json") then
    match ← Project.find? (input.parent?.getD (.ofText ".")) with
    | none => return .ok ⟨[input], none⟩
    | some file =>
      match ← Project.load file with
      | .ok project => return .ok ⟨[input], some project⟩
      | .error diagnostic => return .error diagnostic.message
  else return .error "input must be a .json template or project directory"

end

end DomTemplate

import DomTemplate.Command.Basic

/-!
# Starting a project

A new project gets a project file and an example template.
-/

namespace DomTemplate

/-- The text of a new project file. -/
def newProjectFile (name : String) : String :=
  "[project]\nname = \"" ++ name ++
    "\"\nversion = \"0.1.0\"\nentry = \"template.json\"\n\n[compile]\nnormalize = true\n"

/-- The template of a new project. -/
def exampleTemplate : String :=
  "\x7b\n  \"kind\": \"html\",\n  \"children\": [\n    \x7b\n      \"type\": \"element\",\n" ++
  "      \"tag\": \"div\",\n      \"properties\": [\n" ++
  "        \x7b \"kind\": \"attribute\", \"key\": \"class\", \"value\": 0 \x7d\n      ],\n" ++
  "      \"children\": [\n        \x7b \"type\": \"text\", \"value\": \"Hello, \" \x7d,\n" ++
  "        \x7b \"type\": \"expr\", \"value\": 1 \x7d,\n" ++
  "        \x7b \"type\": \"text\", \"value\": \"!\" \x7d\n      ]\n    \x7d\n  ]\n\x7d\n"

section

variable {m : Type → Type} [Monad m] [FileAccess m]

/-- Writes the two files of a new project into a directory that is there. -/
def writeProject (directory : Path) (name : String) : m Report := do
  let file := directory.join (.ofText projectFileName)
  if ← FileAccess.isPresent file then
    return .failure ("'" ++ file.display ++ "' already exists")
  else
    match ← FileAccess.writeText file (newProjectFile name) with
    | .error fault => return .failure ("cannot write '" ++ file.display ++ "': " ++ fault.message)
    | .ok _ =>
      let template := directory.join (.ofText "template.json")
      match ← FileAccess.writeText template exampleTemplate with
      | .error fault =>
        return .failure ("cannot write '" ++ template.display ++ "': " ++ fault.message)
      | .ok _ =>
        return { notices := [
          .line ("Created project '" ++ name ++ "' in " ++ directory.display),
          .line ("  " ++ file.display), .line ("  " ++ template.display)] }

/-- Starts a project in a directory of its name, or in the working directory. -/
def initProject (name : Option String) : m Report := do
  match name with
  | some name =>
    let directory : Path := .ofText name
    match ← FileAccess.createDirectories directory with
    | .error fault =>
      return .failure ("cannot create directory '" ++ directory.display ++ "': " ++ fault.message)
    | .ok _ => writeProject directory name
  | none =>
    let directory ← FileAccess.workingDirectory
    writeProject directory ((directory.fileName?.bind Text.ofBytes?).getD "templates")

end

end DomTemplate

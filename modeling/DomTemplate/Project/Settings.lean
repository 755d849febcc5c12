import DomTemplate.Diagnostic
import DomTemplate.Text.Blank
import DomTemplate.Tree.Basic

/-!
# Project settings

The text of a project file is a sequence of assignments under section headings.  Of repeated
assignments to a key the last one counts, but a value that makes no sense is refused wherever it
stands.
-/

namespace DomTemplate

/-- The name of project files. -/
def projectFileName : String := "tplc.toml"

/-- An assignment with the section it stands in. -/
structure Assignment where
  heading : List Char
  key : List Char
  value : List Char
deriving DecidableEq

/-- What a line of a project file says. -/
inductive SettingsLine where
  | heading (name : List Char)
  | assignment (key value : List Char)
  /-- a blank line, a comment, or anything else -/
  | other
deriving DecidableEq

def SettingsLine.ofText (line : List Char) : SettingsLine :=
  let line := Text.trim line
  if line.isEmpty || line.head? == some '#' then other
  else if line.head? == some '[' && line.getLast? == some ']' then
    heading (Text.trim line.tail.dropLast)
  else
    match Text.splitOnce '=' line with
    | none => other
    | some (key, value) => assignment (Text.unquote (Text.trim key)) (Text.trim value)

/-- The assignments of lines that follow a heading. -/
def assignments (heading : List Char) : List (List Char) → List Assignment
  | [] => []
  | line :: rest =>
    match SettingsLine.ofText line with
    | .heading name => assignments name rest
    | .assignment key value => ⟨heading, key, value⟩ :: assignments heading rest
    | .other => assignments heading rest

/-- Why a project file is refused. -/
inductive SettingsError where
  | unknownKind (value : String)
  | notBoolean (key value : String)
  | missingName
deriving DecidableEq

def SettingsError.toDiagnostic : SettingsError → Diagnostic
  | unknownKind value =>
    (Diagnostic.error ("unknown template kind '" ++ value ++ "' in " ++ projectFileName)).withHelp
      "expected \"html\" or \"svg\""
  | notBoolean key value =>
    .error ("'" ++ key ++ "' in " ++ projectFileName ++ " must be true or false, found '" ++
      value ++ "'")
  | missingName => .error ("missing 'name' in " ++ projectFileName)

/-- What a project file sets. -/
structure Settings where
  name : String := ""
  version : String := ""
  entries : List String := []
  output : Option String := none
  dialect : Option Dialect := none
  normalize : Bool := true
deriving DecidableEq

/-- Reads a list of quoted texts in square brackets.  Empty texts are dropped, and a text without
brackets is an empty list. -/
def readEntries (text : List Char) : List (List Char) :=
  let text := Text.trim text
  if text.head? == some '[' && text.getLast? == some ']' then
    ((Text.pieces ',' text.tail.dropLast).map fun piece => Text.unquote (Text.trim piece)).filter
      (!·.isEmpty)
  else []

namespace Settings

/-- The text of a value without its quotes. -/
def textValue (value : List Char) : String :=
  String.ofList (Text.unquote value)

/-- Assigns a key of the section `project`. -/
def assignProject (s : Settings) (key value : List Char) : Except SettingsError Settings :=
  match String.ofList key with
  | "entry" =>
    .ok { s with entries :=
      if value.head? == some '[' then (readEntries value).map String.ofList
      else [textValue value] }
  | "name" => .ok { s with name := textValue value }
  | "version" => .ok { s with version := textValue value }
  | "output" => .ok { s with output := some (textValue value) }
  | "kind" =>
    match Dialect.ofName? (textValue value) with
    | some dialect => .ok { s with dialect := some dialect }
    | none => .error (.unknownKind (textValue value))
  | _ => .ok s

/-- Assigns a key of the section `compile`. -/
def assignCompile (s : Settings) (key value : List Char) : Except SettingsError Settings :=
  match String.ofList key with
  | "normalize" =>
    match String.ofList value with
    | "true" => .ok { s with normalize := true }
    | "false" => .ok { s with normalize := false }
    | value => .error (.notBoolean "normalize" value)
  | _ => .ok s

/-- Carries out an assignment; keys and sections that are not known are ignored. -/
def assign (s : Settings) (a : Assignment) : Except SettingsError Settings :=
  match String.ofList a.heading with
  | "project" => s.assignProject a.key a.value
  | "compile" => s.assignCompile a.key a.value
  | _ => .ok s

/-- Reads the text of a project file.  A project has to have a name, and without entries it has the
one entry `template.json`. -/
def read (text : String) : Except SettingsError Settings := do
  let s ← (assignments [] (Text.lines text.toList)).foldlM assign {}
  if s.name = "" then .error .missingName
  else if s.entries.isEmpty then .ok { s with entries := ["template.json"] }
  else .ok s

end Settings

end DomTemplate

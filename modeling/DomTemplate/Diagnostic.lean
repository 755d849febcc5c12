import DomTemplate.Span

/-!
# Diagnostics

A diagnostic is a message to the author of a template, with the place it is about, notes, and a
hint on what to do.
-/

namespace DomTemplate

inductive Severity where
  | error
  | warning
deriving DecidableEq

structure Diagnostic where
  severity : Severity
  message : String
  span : Option Span := none
  notes : List String := []
  help : Option String := none
deriving DecidableEq

namespace Severity

def name : Severity → String
  | error => "error"
  | warning => "warning"

end Severity

namespace Diagnostic

def error (message : String) : Diagnostic :=
  { severity := .error, message }

def warning (message : String) : Diagnostic :=
  { severity := .warning, message }

/-- Sets the place; the last one given counts. -/
def withSpan (d : Diagnostic) (span : Span) : Diagnostic :=
  { d with span := some span }

/-- Adds a note after those already there. -/
def withNote (d : Diagnostic) (note : String) : Diagnostic :=
  { d with notes := d.notes ++ [note] }

/-- Sets the hint; the last one given counts. -/
def withHelp (d : Diagnostic) (help : String) : Diagnostic :=
  { d with help := some help }

end Diagnostic

end DomTemplate

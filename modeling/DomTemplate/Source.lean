import DomTemplate.Block.Refusal
import DomTemplate.Compile
import DomTemplate.Tree.Json

/-!
# Template sources

From the text of a template to its artifact, with every failure as a diagnostic.
-/

namespace DomTemplate

/-- Why a source has no artifact. -/
inductive SourceError where
  /-- the text is no template -/
  | invalid (diagnostic : Diagnostic)
  /-- one of its roots cannot be compiled -/
  | refused (refusal : Refusal)
deriving DecidableEq

def SourceError.toDiagnostic : SourceError → Diagnostic
  | invalid diagnostic => diagnostic
  | refused refusal => refusal.toDiagnostic

/-- Reads a template.  A fault is reported with the byte at which it was noticed. -/
def parseTemplate (source : String) : Except Diagnostic Template :=
  match Template.read source.toList with
  | .ok template => .ok template
  | .error fault =>
    let (line, column) := fault.position source.toList
    .error <|
      ((Diagnostic.error ("invalid template: " ++ fault.message source.toList)).withSpan
        (.atLineColumn source line column)).withHelp "see `tplc init` for an example template"

/-- Reads and compiles a template. -/
def compileSource (source : String) (options : Options) : Except SourceError Artifact :=
  match parseTemplate source with
  | .error diagnostic => .error (.invalid diagnostic)
  | .ok template =>
    match template.compile options with
    | .error refusal => .error (.refused refusal)
    | .ok artifact => .ok artifact

end DomTemplate

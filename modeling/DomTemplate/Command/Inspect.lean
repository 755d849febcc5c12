import DomTemplate.Block.Digest
import DomTemplate.Block.Listing
import DomTemplate.Command.Basic

/-!
# Checking and dumping templates

Both commands compile templates without writing anything.
-/

namespace DomTemplate

structure CheckRequest where
  input : Path
  svg : Bool := false
  noNormalize : Bool := false
deriving DecidableEq

structure DumpRequest where
  input : Path
  svg : Bool := false
  noNormalize : Bool := false
  /-- show whole hashes -/
  full : Bool := false
deriving DecidableEq

/-- The report on a template that compiles or not. -/
def checkReport (file : CompiledFile) : Report :=
  match file.result with
  | .ok artifact =>
    { notices := [.line ("OK: " ++ file.path.display ++ " (" ++ toString artifact.roots.length ++
        " roots, " ++ toString artifact.blocks.length ++ " blocks)")] }
  | .error diagnostic => { code := 1, notices := [.diagnostic file.path diagnostic] }

/-- The heading of a root in a dump: its number, and for a block its hash. -/
def dumpHeading (full : Bool) (index : Nat) (root : Root Block) : String :=
  match root with
  | .block value =>
    let hash := value.encode.contentHash
    "root #" ++ toString index ++ " " ++
      (if full then hash else String.ofList (hash.toList.take 16)) ++ "\n"
  | _ => "root #" ++ toString index ++ "\n"

def dumpArtifact (full : Bool) (artifact : Artifact) : String :=
  String.join (artifact.roots.zipIdx.map fun (root, index) =>
    dumpHeading full index root ++ root.listing)

def dumpReport (full : Bool) (file : CompiledFile) : Report :=
  match file.result with
  | .ok artifact => { output := "; " ++ file.path.display ++ "\n" ++ dumpArtifact full artifact }
  | .error diagnostic => { code := 1, notices := [.diagnostic file.path diagnostic] }

/-- The reports on several templates as one: it fails if one of them does. -/
def Report.concat : List Report → Report
  | [] => {}
  | report :: rest =>
    let others := Report.concat rest
    { code := if report.code = 0 then others.code else report.code
      output := report.output ++ others.output
      notices := report.notices ++ others.notices }

section

variable {m : Type → Type} [Monad m] [FileAccess m]

/-- Compiles what an input stands for and reports on each template. -/
def inspect (input : Path) (svg noNormalize : Bool) (report : CompiledFile → Report) :
    m Report := do
  match ← resolveInput input with
  | .error message => return .failure message
  | .ok inputs =>
    let files ← compileFiles (inputs.options svg noNormalize) inputs.entries
    return .concat (files.map report)

/-- Compiles templates and tells which are in order. -/
def check (request : CheckRequest) : m Report :=
  inspect request.input request.svg request.noNormalize checkReport

/-- Prints the compiled streams of templates. -/
def dump (request : DumpRequest) : m Report :=
  inspect request.input request.svg request.noNormalize (dumpReport request.full)

end

end DomTemplate

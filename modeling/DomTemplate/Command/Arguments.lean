import DomTemplate.Command.Build
import DomTemplate.Command.Init
import DomTemplate.Command.Inspect

/-!
# The command line

An argument list names a command and gives it one positional argument and some flags, in any order.
A flag may be given once.  After two dashes every argument is positional.  A call for help takes no
flags, and at most the name of a command.
-/

namespace DomTemplate

/-- What a command line asks for. -/
inductive Invocation where
  | init (name : Option String)
  | build (request : BuildRequest)
  | check (request : CheckRequest)
  | dump (request : DumpRequest)
  | version
deriving DecidableEq

/-- The flags that a command knows, apart from the one for help. -/
structure FlagSet where
  output : Bool := false
  svg : Bool := false
  noNormalize : Bool := false
  full : Bool := false
  /-- whether the positional argument may be empty -/
  emptyInput : Bool := false

/-- The arguments of a command that have been read. -/
structure Arguments where
  input : Option String := none
  output : Option String := none
  svg : Bool := false
  noNormalize : Bool := false
  full : Bool := false
deriving DecidableEq

/-- How the reading of arguments ends if it does not succeed. -/
inductive ArgumentStop where
  /-- the command line makes no sense -/
  | usage
  /-- help is asked for -/
  | help
deriving DecidableEq

namespace Arguments

/-- Takes a positional argument. -/
def positional (known : FlagSet) (found : Arguments) (text : String) :
    Except ArgumentStop Arguments :=
  if found.input.isSome || (text = "" && !known.emptyInput) then .error .usage
  else .ok { found with input := some text }

/-- Takes the path after the flag for the output.  It must not be empty. -/
def takeOutput (found : Arguments) (text : String) : Except ArgumentStop Arguments :=
  if found.output.isSome || text = "" then .error .usage
  else .ok { found with output := some text }

/-- Takes a flag without a value. -/
def takeFlag (known : FlagSet) (found : Arguments) (name : String) :
    Except ArgumentStop Arguments :=
  match name with
  | "svg" =>
    if known.svg && !found.svg then .ok { found with svg := true } else .error .usage
  | "no-normalize" =>
    if known.noNormalize && !found.noNormalize then .ok { found with noNormalize := true }
    else .error .usage
  | "full" =>
    if known.full && !found.full then .ok { found with full := true } else .error .usage
  | "help" => .error .help
  | _ => .error .usage

/-- An argument that starts with a dash and is longer than one dash is no value. -/
def looksLikeFlag (text : String) : Bool :=
  match text.toList with
  | '-' :: _ :: _ => true
  | _ => false

/-- What an argument is by its form. -/
inductive Form where
  | positional
  /-- two dashes: positional arguments follow -/
  | separator
  /-- a name after two dashes, perhaps with a value -/
  | long (name : String) (value : Option String)
  /-- one letter after a dash, with what follows it -/
  | short (letter : Char) (rest : List Char)

def Form.ofText (text : String) : Form :=
  match text.toList with
  | ['-', '-'] => separator
  | '-' :: '-' :: body =>
    match Text.splitOnce '=' body with
    | some (name, value) => long (String.ofList name) (some (String.ofList value))
    | none => long (String.ofList body) none
  | '-' :: letter :: rest => short letter rest
  | _ => positional

/-- The value attached to a short flag; an equals sign before it is dropped. -/
def attached : List Char → String
  | '=' :: rest => String.ofList rest
  | rest => String.ofList rest

/-- Reads the positional arguments after the separator. -/
def readPositional (known : FlagSet) (found : Arguments) :
    List String → Except ArgumentStop Arguments
  | [] => .ok found
  | text :: rest => do
    let found ← found.positional known text
    readPositional known found rest

/-- Reads arguments in order. -/
def read (known : FlagSet) (found : Arguments) : List String → Except ArgumentStop Arguments
  | [] => .ok found
  | text :: rest =>
    match Form.ofText text with
    | .positional => do
      let found ← found.positional known text
      read known found rest
    | .separator => readPositional known found rest
    | .long "output" value =>
      if !known.output then .error .usage
      else
        match value, rest with
        | some value, rest => do
          let found ← found.takeOutput value
          read known found rest
        | none, value :: rest =>
          if looksLikeFlag value then .error .usage
          else do
            let found ← found.takeOutput value
            read known found rest
        | none, [] => .error .usage
    | .long name none => do
      let found ← found.takeFlag known name
      read known found rest
    | .long _ (some _) => .error .usage
    | .short 'o' [] =>
      match known.output, rest with
      | true, value :: rest =>
        if looksLikeFlag value then .error .usage
        else do
          let found ← found.takeOutput value
          read known found rest
      | _, _ => .error .usage
    | .short 'o' value =>
      if !known.output then .error .usage
      else do
        let found ← found.takeOutput (attached value)
        read known found rest
    | .short 'h' _ => .error .help
    | .short _ _ => .error .usage

/-- The positional argument as a path, if it was given. -/
def inputPath (found : Arguments) : Except ArgumentStop Path :=
  match found.input with
  | some text => .ok (.ofText text)
  | none => .error .usage

end Arguments

namespace Invocation

/-- The commands that there is help on. -/
def commandNames : List String :=
  ["init", "build", "check", "dump", "help"]

/-- Reads the arguments of a call for help. -/
def ofHelp : List String → ArgumentStop
  | [] => .help
  | [command] => if commandNames.contains command then .help else .usage
  | _ => .usage

/-- Reads the arguments of a command. -/
def ofCommand (command : String) (arguments : List String) : Except ArgumentStop Invocation :=
  match command with
  | "init" => do
    let found ← Arguments.read { emptyInput := true } {} arguments
    .ok (.init found.input)
  | "build" => do
    let found ← Arguments.read { output := true, svg := true, noNormalize := true } {} arguments
    let input ← found.inputPath
    .ok (.build ⟨input, found.output.map Path.ofText, found.svg, found.noNormalize⟩)
  | "check" => do
    let found ← Arguments.read { svg := true, noNormalize := true } {} arguments
    let input ← found.inputPath
    .ok (.check ⟨input, found.svg, found.noNormalize⟩)
  | "dump" => do
    let found ← Arguments.read { svg := true, noNormalize := true, full := true } {} arguments
    let input ← found.inputPath
    .ok (.dump ⟨input, found.svg, found.noNormalize, found.full⟩)
  | "help" => .error (ofHelp arguments)
  | _ => .error .usage

/-- Reads a command line without the name of the program. -/
def ofArguments (arguments : List String) : Except ArgumentStop Invocation :=
  match arguments with
  | [] => .error .usage
  | first :: rest =>
    match Arguments.Form.ofText first with
    | .positional => ofCommand first rest
    | .long "version" none => .ok .version
    | .long "help" none => .error .help
    | .short 'V' _ => .ok .version
    | .short 'h' _ => .error .help
    | _ => .error .usage

variable {m : Type → Type} [Monad m] [FileAccess m]

/-- Carries out a command. -/
def run : Invocation → m Report
  | init name => initProject name
  | build request => DomTemplate.build request
  | check request => DomTemplate.check request
  | dump request => DomTemplate.dump request
  | version => pure { output := "tplc 0.1.0\n" }

end Invocation

/-- The answer to a call for help. -/
def helpText : String :=
  "Compiles DOM templates into instantiation programs\n\n" ++
    "Usage: tplc <COMMAND>\n\n" ++
    "  init [NAME]    Initialize a new template project\n" ++
    "  build <INPUT>  Compile templates to artifacts\n" ++
    "  check <INPUT>  Compile templates and report errors without writing anything\n" ++
    "  dump <INPUT>   Print the compiled instruction streams of a template\n"

/-- Runs the program on a command line.  A command line that makes no sense gives code 2. -/
def runCommandLine {m : Type → Type} [Monad m] [FileAccess m] (arguments : List String) :
    m Report :=
  match Invocation.ofArguments arguments with
  | .ok invocation => invocation.run
  | .error .help => pure { output := helpText }
  | .error .usage => pure { code := 2 }

end DomTemplate

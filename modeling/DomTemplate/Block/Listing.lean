import DomTemplate.Block.Basic
import DomTemplate.Text.Quoted

/-!
# Listings of compiled roots

A listing shows a compiled root line by line, with the streams of a block spelled out.
-/

namespace DomTemplate

/-- A number at the right end of a field of three characters. -/
def padded (n : Nat) : String :=
  let digits := toString n
  String.ofList (List.replicate (3 - digits.length) ' ') ++ digits

/-- The lines of a stream, or none if it is empty. -/
def streamLines (name : String) (ops : List String) : List String :=
  if ops.isEmpty then []
  else
    ("  " ++ name ++ ":") ::
      ops.zipIdx.map fun (op, index) => "    " ++ padded index ++ "  " ++ op

/-- A line that lists numbered entries, or none if there are no entries. -/
def tableLines (name : String) (entries : List String) : List String :=
  if entries.isEmpty then [] else ["  " ++ name ++ " " ++ " ".intercalate entries]

def Shell.line : Shell → String
  | .tag name => "  shell <" ++ name ++ ">"
  | .chunks parts => "  shell " ++ Text.quotedList parts

def Block.lines (block : Block) : List String :=
  ("block state_slots=" ++ toString block.flags.walkSlots ++ " child_slots=" ++
      toString block.flags.mounts ++ if block.flags.isSvg then " svg" else "") ::
    block.shell.line ::
    (tableLines "exprs" (block.inputs.zipIdx.map fun (target, index) =>
        "#" ++ toString index ++ "=" ++ target.label) ++
      tableLines "data" (block.keys.zipIdx.map fun (key, index) =>
        "[" ++ toString index ++ "]=" ++ key) ++
      streamLines "state" (block.walk.map WalkOp.text) ++
      streamLines "props" (block.binds.map BindOp.text) ++
      streamLines "child" (block.mounts.map MountOp.text))

/-- The listing of a root; every line ends in a line feed. -/
def Root.listing : Root Block → String
  | .block value => String.join (value.lines.map (· ++ "\n"))
  | .text value => "text " ++ Text.quoted value ++ "\n"
  | .placeholder target => "expr " ++ target.label ++ "\n"

end DomTemplate

import DomTemplate.Block.Basic
import DomTemplate.Block.Refusal
import DomTemplate.Scratch.Bind
import DomTemplate.Scratch.Mount
import DomTemplate.Scratch.Slots
import DomTemplate.Scratch.Walk
import DomTemplate.Tree.Normal
import DomTemplate.Tree.Placeholders

/-!
# Compiling templates

Each root is compiled on its own.  An element gives a block, or is refused: first if it has too many
placeholders, then for a void element with children, then if it needs too many slots and last if it
has too many insertions.
-/

namespace DomTemplate

/-- What the author may choose. -/
structure Options where
  /-- merge adjacent texts and drop empty ones first -/
  normalize : Bool := true
  /-- the dialect to compile for, instead of the one a template declares -/
  dialect : Option Dialect := none
deriving DecidableEq

/-- The options under which every template is SVG. -/
def Options.svg : Options :=
  { dialect := some .svg }

/-- Refuses a root that needs more of a resource than a block has. -/
def Element.require (e : Element) (resource : Resource) (count : Nat) : Except Refusal Unit :=
  if resource.fits count then .ok ()
  else .error ⟨0, [e.tag], .capacityExceeded resource count⟩

/-- The shell of a root element. -/
def Element.shell (e : Element) : Except Refusal Shell :=
  match Shell.ofElement e with
  | .ok shell => .ok shell
  | .error path => .error ⟨0, path, .voidElementChildren (path.getLast?.getD "")⟩

/-- The block of a root element. -/
def Element.compile (e : Element) (dialect : Dialect) : Except Refusal Block := do
  let inputs := e.toNode.placeholders
  e.require .expressions inputs.size
  let shell ← e.shell
  let (root, slots) := (Scratch.ofNode 0 e.toNode).numberRoot
  e.require .stateSlots slots.toNat
  let walk := root.walk
  let (binds, keys) := root.bindStream inputs
  let mounts := root.mountStream inputs
  e.require .childSlots (countMounts mounts)
  .ok {
    flags := .ofCounts slots.toNat (countMounts mounts) (dialect = .svg)
    shell, binds, mounts, walk, keys
    inputs := inputs.entries }

/-- Compiles one root. -/
def Node.compile (node : Node) (dialect : Dialect) : Except Refusal (Root Block) :=
  match node with
  | .element tag properties children =>
    (Element.compile ⟨tag, properties, children⟩ dialect).map Root.block
  | .text value => .ok (.text value)
  | .placeholder target => .ok (.placeholder target)

/-- Compiles roots one after the other up to the first that is refused; `index` is the number of the
first. -/
def compileRoots (options : Options) (dialect : Dialect) (index : Nat) :
    List Node → Except Refusal (List (Root Block))
  | [] => .ok []
  | node :: rest =>
    match (if options.normalize then node.normalizeRoot else node).compile dialect with
    | .error refusal => .error { refusal with root := index }
    | .ok root => do
      let roots ← compileRoots options dialect (index + 1) rest
      .ok (root :: roots)

def Template.compile (template : Template) (options : Options) : Except Refusal Artifact :=
  (compileRoots options (options.dialect.getD template.dialect) 0 template.roots).map Artifact.mk

end DomTemplate

import DomTemplate.Block.Flags
import DomTemplate.Block.Shell
import DomTemplate.Stream.Bind
import DomTemplate.Stream.Mount
import DomTemplate.Stream.Walk

/-!
# Blocks and artifacts

A block is a compiled root element: its shell, its header and its three streams, with the keys and
the placeholders that the streams refer to by number.  An artifact holds one compiled root for each
root of a template; texts and placeholders at the root stay as they are.  An encoded block has the
streams packed into words.
-/

namespace DomTemplate

structure Block where
  flags : Flags
  shell : Shell
  binds : List BindOp
  mounts : List MountOp
  walk : List WalkOp
  keys : List String
  inputs : List Placeholder
deriving DecidableEq

structure EncodedBlock where
  flags : UInt32
  shell : Shell
  binds : List UInt32
  mounts : List UInt32
  walk : List UInt32
  keys : List String
  inputs : List UInt32
deriving DecidableEq

/-- A compiled root, with blocks of type `β`. -/
inductive Root (β : Type) where
  | block (value : β)
  | text (value : String)
  | placeholder (target : Placeholder)
deriving DecidableEq

structure Artifact where
  roots : List (Root Block)
deriving DecidableEq

structure EncodedArtifact where
  roots : List (Root EncodedBlock)
deriving DecidableEq

def Block.encode (block : Block) : EncodedBlock where
  flags := block.flags.bits
  shell := block.shell
  binds := block.binds.map BindOp.encode
  mounts := block.mounts.map MountOp.encode
  walk := block.walk.map WalkOp.encode
  keys := block.keys
  inputs := block.inputs.map Placeholder.id

namespace Root

variable {β γ : Type}

def map (f : β → γ) : Root β → Root γ
  | block value => block (f value)
  | text value => text value
  | placeholder target => placeholder target

def block? : Root β → Option β
  | block value => some value
  | _ => none

end Root

namespace Artifact

/-- The blocks among the roots, in order. -/
def blocks (artifact : Artifact) : List Block :=
  artifact.roots.filterMap Root.block?

def encode (artifact : Artifact) : EncodedArtifact :=
  ⟨artifact.roots.map (Root.map Block.encode)⟩

end Artifact

end DomTemplate

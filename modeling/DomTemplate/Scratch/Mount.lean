import DomTemplate.Registry
import DomTemplate.Scratch.Basic
import DomTemplate.Stream.Mount

/-!
# The insertions of a scratch tree

The placeholders among the children of an element are inserted from right to left, so that each
stands before what has been inserted already.  The insertions into an element come before those into
its children, and the children take their turns from right to left as well.
-/

namespace DomTemplate.Scratch

/-- Selects the right neighbour of a placeholder.  A neighbour that is a placeholder itself has just
been inserted, and the insertion goes before it anyway. -/
def selectNext : List Scratch → List MountOp
  | [] => []
  | neighbour :: _ => if neighbour.isPlaceholder then [] else [.setNext neighbour.slot.toNat]

/-- The insertions among siblings. -/
def mountChildren (inputs : Registry Placeholder) : List Scratch → List MountOp
  | [] => []
  | node :: rest =>
    match node with
    | placeholder target _ =>
      match inputs.word? target with
      | none => mountChildren inputs rest
      | some input => mountChildren inputs rest ++ selectNext rest ++ [.child input.toNat]
    | _ => mountChildren inputs rest

mutual

/-- The insertions into a node and into what stands below it.  An element is selected by its slot,
except for the root, which is selected from the start. -/
def mount (inputs : Registry Placeholder) (isRoot : Bool) : Scratch → List MountOp
  | element _ _ _ mounts _ slot children =>
    (if 0 < mounts then
        (if isRoot then [] else [.setParent slot.toNat]) ++ mountChildren inputs children
      else []) ++ mountAll inputs children
  | _ => []

/-- The insertions into siblings from right to left. -/
def mountAll (inputs : Registry Placeholder) : List Scratch → List MountOp
  | [] => []
  | node :: rest => mountAll inputs rest ++ mount inputs false node

end

/-- The mounting stream of a root. -/
def mountStream (inputs : Registry Placeholder) (root : Scratch) : List MountOp :=
  mount inputs true root

end DomTemplate.Scratch

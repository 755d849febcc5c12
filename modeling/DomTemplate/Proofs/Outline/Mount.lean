import DomTemplate.Proofs.Outline.Basic
import DomTemplate.Registry
import DomTemplate.Stream.Mount

/-!
# The insertions of an outline

The same as those of a scratch tree, where a node without a slot is never referred to.  The
placeholders among the children of an element are inserted from right to left, so that each stands
before what has been inserted already.  The insertions into an element come before those into its
children, and the children take their turns from right to left as well.
-/

namespace DomTemplate.Outline

/-- Selects the right neighbour of a placeholder.  A neighbour that is a placeholder itself has just
been inserted, and the insertion goes before it anyway. -/
def selectNext : List Outline → List MountOp
  | [] => []
  | neighbour :: _ => neighbour.slot?.toList.map MountOp.setNext

/-- The insertions among siblings. -/
def mountChildren (inputs : Registry Placeholder) : List Outline → List MountOp
  | [] => []
  | outline :: rest =>
    match outline with
    | placeholder target =>
      match inputs.index? target with
      | none => mountChildren inputs rest
      | some input => mountChildren inputs rest ++ selectNext rest ++ [.child input]
    | _ => mountChildren inputs rest

mutual

/-- The insertions into a node and into what stands below it.  An element is selected by its slot;
the root has none and is selected from the start. -/
def mount (inputs : Registry Placeholder) : Outline → List MountOp
  | element _ _ marks _ slot children =>
    (if 0 < marks.mounts then slot.toList.map MountOp.setParent ++ mountChildren inputs children
      else []) ++ mountAll inputs children
  | text .. => []
  | placeholder _ => []

/-- The insertions into siblings from right to left. -/
def mountAll (inputs : Registry Placeholder) : List Outline → List MountOp
  | [] => []
  | outline :: rest => mountAll inputs rest ++ mount inputs outline

end

/-- The mounting stream of a root. -/
def mountStream (inputs : Registry Placeholder) (root : Outline) : List MountOp :=
  mount inputs root

end DomTemplate.Outline

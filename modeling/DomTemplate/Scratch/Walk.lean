import DomTemplate.Scratch.Basic
import DomTemplate.Stream.Walk

/-!
# The walk over a scratch tree

The steps of a level follow its constant siblings from left to right and stop as soon as nothing to
the right can need a slot.  An element is entered only if a step is needed among its children.
-/

namespace DomTemplate.Scratch

/-- The step over a node with `length` steps over its children. -/
def step (save : Bool) (length : UInt32) : WalkOp :=
  if 0 < length then .enter save length.toNat else if save then .save else .next

/-- The step over a node and the steps over its children.  The length of the latter is kept in a
word. -/
def stepInto (save : Bool) (inner : List WalkOp) : List WalkOp :=
  step save (.ofNat inner.length) :: inner

/-- The steps over the last element of a level.  A step that records nothing is taken back. -/
def retract (steps : List WalkOp) : List WalkOp :=
  if steps.head? = some .next then steps.dropLast else steps

mutual

/-- The steps over the children of a node. -/
def walk : Scratch → List WalkOp
  | element _ _ _ _ _ _ children => walkAll false false children
  | _ => []

/-- The steps over siblings.  `afterText` says that the last constant sibling was a text, and
`behindPlaceholder` that a placeholder came after it. -/
def walkAll (afterText behindPlaceholder : Bool) : List Scratch → List WalkOp
  | [] => []
  | node :: rest =>
    match node with
    | element .. =>
      let steps :=
        stepInto (behindPlaceholder || node.isPatched) (if node.isDynamic then walk node else [])
      if node.isLast then retract steps else steps ++ walkAll false false rest
    | text .. =>
      if behindPlaceholder then
        (if afterText then .remove else .save) :: walkAll true false rest
      else if node.isLast then []
      else .next :: walkAll true false rest
    | placeholder .. => walkAll afterText true rest

end

end DomTemplate.Scratch

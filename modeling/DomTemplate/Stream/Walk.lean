/-!
# The walk stream

The first stream of a block moves a cursor through the freshly cloned tree.  It visits the nodes
that the block has to find again later and records each of them in the next free slot.  Slot 0 is
the root of the clone and is taken before the walk begins.  Between two steps of one level the
cursor moves to the next sibling.
-/

namespace DomTemplate

/-- One step of the walk over a cloned tree. -/
inductive WalkOp where
  /-- pass over the node -/
  | next
  /-- record the node in a slot -/
  | save
  /-- walk over the children by the following `length` steps, first recording the node if `save` -/
  | enter (save : Bool) (length : Nat)
  /-- take the node, a separator comment, out of the tree and record the text after it -/
  | remove
deriving DecidableEq

namespace WalkOp

/-- Bit 0 marks a recorded node and bit 1 an entered one; the length of the child walk stands above
three low bits.  An entered walk of length 0 has no use of its own and stands for `remove`. -/
def encode : WalkOp → UInt32
  | next => 0
  | save => 1
  | enter false length => UInt32.ofNat length <<< 3 ||| 2
  | enter true length => UInt32.ofNat length <<< 3 ||| 3
  | remove => 2

/-- Every word is read as a step. -/
def decode (word : UInt32) : WalkOp :=
  if word &&& 2 ≠ 0 then
    if word >>> 3 = 0 then remove else enter (word &&& 1 ≠ 0) (word >>> 3).toNat
  else if word &&& 1 ≠ 0 then save
  else next

/-- Whether the step records a node. -/
def takesSlot : WalkOp → Bool
  | next => false
  | save => true
  | enter saved _ => saved
  | remove => true

/-- The step as listings show it. -/
def text : WalkOp → String
  | next => "next"
  | save => "save"
  | enter true length => "save+enter " ++ toString length
  | enter false length => "enter " ++ toString length
  | remove => "remove"

end WalkOp

/-- The number of slots a walk fills, the root's slot included. -/
def countWalkSlots (ops : List WalkOp) : Nat :=
  1 + ops.countP WalkOp.takesSlot

end DomTemplate

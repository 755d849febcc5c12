/-!
# The mounting stream

The third stream of a block inserts the values of placeholders that stand between nodes.  An
insertion happens under the current parent and before the current neighbour, or at the end of the
parent while no neighbour is set.
-/

namespace DomTemplate

inductive MountOp where
  /-- insert the value of a placeholder, which then is the current neighbour -/
  | child (input : Nat)
  /-- make the node of a slot the current neighbour -/
  | setNext (slot : Nat)
  /-- make the node of a slot the current parent, with no neighbour -/
  | setParent (slot : Nat)
deriving DecidableEq

namespace MountOp

/-- Two bits for the sort of operation below the index or slot. -/
def encode : MountOp → UInt32
  | child input => UInt32.ofNat input <<< 2
  | setNext slot => UInt32.ofNat slot <<< 2 ||| 1
  | setParent slot => UInt32.ofNat slot <<< 2 ||| 3

/-- The two low bits `10` stand for no operation. -/
def decode? (word : UInt32) : Option MountOp :=
  let value := (word >>> 2).toNat
  match (word &&& 3).toNat with
  | 0 => some (child value)
  | 1 => some (setNext value)
  | 3 => some (setParent value)
  | _ => none

/-- The operation as listings show it. -/
def text : MountOp → String
  | child input => "child #" ++ toString input
  | setNext slot => "set_next @" ++ toString slot
  | setParent slot => "set_parent @" ++ toString slot

def isChild : MountOp → Bool
  | child _ => true
  | _ => false

end MountOp

/-- The number of insertions. -/
def countMounts (ops : List MountOp) : Nat :=
  ops.countP MountOp.isChild

end DomTemplate

import DomTemplate.Tree.Basic

/-!
# Scratch trees

A scratch tree is a template tree with what the instruction streams need to know at each node: how
much of it is dynamic, what follows among its siblings, and the slot in which the walk records it.
Counts and slots are words of 32 bits, which wrap around, and the answers to the yes-or-no questions
share one byte.
-/

namespace DomTemplate

/-- The bits of the flag byte of a node. -/
inductive Flag where
  /-- the node or its subtree has dynamic content -/
  | dynamic
  /-- a later sibling is a placeholder or has dynamic content -/
  | nextDynamic
  /-- a later sibling is an element or a text -/
  | nextSolid
deriving DecidableEq

namespace Flag

def mask : Flag → UInt8
  | dynamic => 1
  | nextDynamic => 2
  | nextSolid => 4

/-- Whether a flag is set in a byte. -/
def isIn (flag : Flag) (flags : UInt8) : Bool :=
  flags &&& flag.mask ≠ 0

/-- Sets a flag in a byte on a condition, and leaves the byte as it is otherwise. -/
def setIf (flag : Flag) (condition : Bool) (flags : UInt8) : UInt8 :=
  if condition then flags ||| flag.mask else flags

end Flag

/-- A node with its notes.  Slot 0 stands for a slot that has not been given. -/
inductive Scratch where
  /-- an element, with the number of its bound properties and of the placeholders among its
  children -/
  | element (tag : String) (properties : List Property) (bound mounts : UInt32) (flags : UInt8)
      (slot : UInt32) (children : List Scratch)
  | text (value : String) (flags : UInt8) (slot : UInt32)
  | placeholder (target : Placeholder) (flags : UInt8)

namespace Scratch

def isPlaceholder : Scratch → Bool
  | placeholder .. => true
  | _ => false

def flags : Scratch → UInt8
  | element _ _ _ _ flags _ _ => flags
  | text _ flags _ => flags
  | placeholder _ flags => flags

def slot : Scratch → UInt32
  | element _ _ _ _ _ slot _ => slot
  | text _ _ slot => slot
  | placeholder .. => 0

/-- The number of bound properties; only elements have any. -/
def bound : Scratch → UInt32
  | element _ _ bound .. => bound
  | _ => 0

/-- The number of placeholders among the children. -/
def mounts : Scratch → UInt32
  | element _ _ _ mounts .. => mounts
  | _ => 0

def isDynamic (node : Scratch) : Bool :=
  Flag.dynamic.isIn node.flags

/-- The walk goes on past a node only if a slot may have to be filled further to the right: there
has to be a solid sibling, and a dynamic one. -/
def isLast (node : Scratch) : Bool :=
  let both := Flag.nextDynamic.mask ||| Flag.nextSolid.mask
  node.flags &&& both ≠ both

/-- Whether a node itself is changed at run time. -/
def isPatched (node : Scratch) : Bool :=
  0 < node.bound || 0 < node.mounts

/-- The state of the pass over the children of an element, from right to left. -/
structure Scan where
  /-- the flags of the element -/
  flags : UInt8
  /-- the flags of the next child to the left -/
  siblings : UInt8
  /-- the number of placeholders so far -/
  mounts : UInt32
  children : List Scratch

mutual

/-- The scratch tree of a node that gets `flags` from its siblings.  Slots are given later. -/
def ofNode (flags : UInt8) : Node → Scratch
  | .element tag properties children =>
    let bound := UInt32.ofNat (properties.countP Property.isDynamic)
    let scan := scanChildren flags children
    let flags := Flag.dynamic.setIf (0 < bound || 0 < scan.mounts) scan.flags
    element tag properties bound scan.mounts flags 0 scan.children
  | .text value => text value flags 0
  | .placeholder target => placeholder target (flags ||| Flag.dynamic.mask)

/-- The pass over the children of an element whose flags are `flags` before it. -/
def scanChildren (flags : UInt8) : List Node → Scan
  | [] => ⟨flags, 0, 0, []⟩
  | node :: rest =>
    let scan := scanChildren flags rest
    match node with
    | .element .. =>
      let child := ofNode scan.siblings node
      { scan with
        flags := Flag.dynamic.setIf child.isDynamic scan.flags
        siblings := Flag.nextDynamic.setIf child.isDynamic scan.siblings ||| Flag.nextSolid.mask
        children := child :: scan.children }
    | .text _ =>
      { scan with
        siblings := scan.siblings ||| Flag.nextSolid.mask
        children := ofNode scan.siblings node :: scan.children }
    | .placeholder _ =>
      let siblings := scan.siblings ||| Flag.nextDynamic.mask
      { scan with
        siblings
        mounts := scan.mounts + 1
        children := ofNode siblings node :: scan.children }

end

end Scratch

end DomTemplate

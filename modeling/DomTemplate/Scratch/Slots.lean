import DomTemplate.Scratch.Basic

/-!
# Slots

The walk records a node in a slot if the block has to find it again: an element that is patched, and
any element or text that stands right behind a placeholder, since insertions happen before it.
Slots are given in document order.
-/

namespace DomTemplate.Scratch

mutual

/-- Gives slots to a node and to what stands below it, starting with `next`, and tells the next free
one. -/
def number (behindPlaceholder : Bool) (next : UInt32) : Scratch → Scratch × UInt32
  | element tag properties bound mounts flags slot children =>
    if behindPlaceholder || (0 < bound || 0 < mounts) then
      let (numbered, free) := numberAll false (next + 1) children
      (element tag properties bound mounts flags next numbered, free)
    else
      let (numbered, free) := numberAll false next children
      (element tag properties bound mounts flags slot numbered, free)
  | text value flags slot =>
    if behindPlaceholder then (text value flags next, next + 1) else (text value flags slot, next)
  | placeholder target flags => (placeholder target flags, next)

/-- Gives slots to siblings from left to right. -/
def numberAll (behindPlaceholder : Bool) (next : UInt32) : List Scratch → List Scratch × UInt32
  | [] => ([], next)
  | node :: rest =>
    let (first, free) := number behindPlaceholder next node
    let (others, last) := numberAll node.isPlaceholder free rest
    (first :: others, last)

end

/-- Gives slots to everything below a root and counts them.  The root is slot 0 without being
recorded, so the slots of its descendants start at 1. -/
def numberRoot : Scratch → Scratch × UInt32
  | element tag properties bound mounts flags slot children =>
    let (numbered, slots) := numberAll false 1 children
    (element tag properties bound mounts flags slot numbered, slots)
  | node => (node, 1)

end DomTemplate.Scratch

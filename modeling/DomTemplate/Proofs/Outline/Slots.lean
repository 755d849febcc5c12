import DomTemplate.Proofs.Outline.Basic

/-!
# The slots of an outline

The walk records a node in a slot if the block has to find it again: an element that is patched, and
any element or text that stands right behind a placeholder, since insertions happen before it.
Slots are given in document order.
-/

namespace DomTemplate.Outline

mutual

/-- Gives slots to a node and to what stands below it, starting with `next`, and tells the next free
one. -/
def number (behindPlaceholder : Bool) (next : Nat) : Outline → Outline × Nat
  | element tag properties marks following slot children =>
    if behindPlaceholder || marks.patched then
      let (numbered, free) := numberAll false (next + 1) children
      (element tag properties marks following (some next) numbered, free)
    else
      let (numbered, free) := numberAll false next children
      (element tag properties marks following slot numbered, free)
  | text value following slot =>
    if behindPlaceholder then (text value following (some next), next + 1)
    else (text value following slot, next)
  | placeholder target => (placeholder target, next)

/-- Gives slots to siblings from left to right. -/
def numberAll (behindPlaceholder : Bool) (next : Nat) : List Outline → List Outline × Nat
  | [] => ([], next)
  | outline :: rest =>
    let (first, free) := number behindPlaceholder next outline
    let (others, last) := numberAll outline.isPlaceholder free rest
    (first :: others, last)

end

/-- Gives slots to everything below a root and counts them.  The root is slot 0 without being
recorded, so the slots of its descendants start at 1. -/
def numberRoot : Outline → Outline × Nat
  | element tag properties marks following slot children =>
    let (numbered, slots) := numberAll false 1 children
    (element tag properties marks following slot numbered, slots)
  | outline => (outline, 1)

end DomTemplate.Outline

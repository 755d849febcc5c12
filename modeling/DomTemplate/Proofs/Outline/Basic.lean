import DomTemplate.Tree.Basic

/-!
# Outlines

An outline says what a scratch tree says, without the words it is written in: counts have no bound,
a node has a slot or has none, and what a flag tells is a truth value of its own.  The streams of an
outline are what the streams of the scratch tree are as long as its counts fit into words, so the
arguments about streams are made on outlines.
-/

namespace DomTemplate

/-- What stands to the right of a node among its siblings. -/
structure Following where
  /-- a placeholder, or an element with dynamic content -/
  dynamic : Bool
  /-- an element or a text -/
  solid : Bool
deriving DecidableEq

/-- How an element takes part in the changes of a page. -/
structure Marks where
  /-- the number of its properties that are bound to a placeholder -/
  bound : Nat
  /-- the number of placeholders among its children -/
  mounts : Nat
  /-- whether it, or an element below it, has either -/
  dynamic : Bool
deriving DecidableEq

inductive Outline where
  | element (tag : String) (properties : List Property) (marks : Marks) (following : Following)
      (slot : Option Nat) (children : List Outline)
  | text (value : String) (following : Following) (slot : Option Nat)
  | placeholder (target : Placeholder)

namespace Following

/-- Nothing follows the last sibling. -/
def nothing : Following := ⟨false, false⟩

/-- The walk goes on past a node only if a slot may have to be filled further to the right: there
has to be a solid sibling, and a dynamic one. -/
def ends (following : Following) : Bool :=
  !(following.dynamic && following.solid)

end Following

/-- Whether an element itself is changed at run time. -/
def Marks.patched (marks : Marks) : Bool :=
  0 < marks.bound || 0 < marks.mounts

namespace Outline

def isPlaceholder : Outline → Bool
  | placeholder _ => true
  | _ => false

/-- The slot of a node, if it has one. -/
def slot? : Outline → Option Nat
  | element _ _ _ _ slot _ => slot
  | text _ _ slot => slot
  | placeholder _ => none

/-- Whether a node has dynamic content: a placeholder is nothing else, and a text never has. -/
def isDynamic : Outline → Bool
  | element _ _ marks .. => marks.dynamic
  | text .. => false
  | placeholder _ => true

/-- What follows the left neighbour of a node, given what follows the node. -/
def extend (following : Following) (outline : Outline) : Following :=
  ⟨following.dynamic || outline.isDynamic, following.solid || !outline.isPlaceholder⟩

mutual

/-- The outline of a node, given what follows it.  Slots are filled in later. -/
def ofNode (following : Following) : Node → Outline
  | .element tag properties children =>
    let (outlines, inner) := ofNodes children
    let bound := properties.countP Property.isDynamic
    element tag properties
      ⟨bound, children.countP Node.isPlaceholder, 0 < bound || inner.dynamic⟩
      following none outlines
  | .text value => text value following none
  | .placeholder target => placeholder target

/-- The outlines of siblings, built from right to left, and what stands among them. -/
def ofNodes : List Node → List Outline × Following
  | [] => ([], .nothing)
  | node :: rest =>
    let (outlines, following) := ofNodes rest
    let outline := ofNode following node
    (outline :: outlines, extend following outline)

end

end Outline

end DomTemplate

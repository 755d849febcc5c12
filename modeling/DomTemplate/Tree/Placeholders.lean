import DomTemplate.Registry
import DomTemplate.Tree.Basic

/-!
# The placeholders of a root

The placeholders below a root are numbered in document order, the properties of an element before
its children.  A placeholder that occurs again keeps its number.
-/

namespace DomTemplate.Node

/-- Registers the placeholders that properties are bound to. -/
def registerProperties (seen : Registry Placeholder) (properties : List Property) :
    Registry Placeholder :=
  (properties.filterMap Property.target?).foldl Registry.insert seen

mutual

/-- Registers the placeholders of a node. -/
def register (seen : Registry Placeholder) : Node → Registry Placeholder
  | element _ properties children => registerAll (registerProperties seen properties) children
  | text _ => seen
  | placeholder target => seen.insert target

/-- Registers the placeholders of siblings from left to right. -/
def registerAll (seen : Registry Placeholder) : List Node → Registry Placeholder
  | [] => seen
  | node :: rest => registerAll (register seen node) rest

end

/-- The placeholders at and below a node with their numbers. -/
def placeholders (node : Node) : Registry Placeholder :=
  register .empty node

end DomTemplate.Node

import DomTemplate.Tree.Basic

/-!
# Text normalisation

Adjacent texts become one node when markup is parsed, so the compiler merges them beforehand, and
it drops empty texts.  The root of a template is kept as it is: only what stands below an element
changes.
-/

namespace DomTemplate.Node

/-- The text collected so far as a node, if there is any. -/
def flush (pending : String) : List Node :=
  if pending = "" then [] else [text pending]

mutual

/-- Normalises what stands below an element; texts and placeholders stay. -/
def normalizeRoot : Node → Node
  | element tag properties children => element tag properties (normalizeFrom "" children)
  | text value => text value
  | placeholder target => placeholder target

/-- Normalises siblings that follow the text `pending`. -/
def normalizeFrom (pending : String) : List Node → List Node
  | [] => flush pending
  | node :: rest =>
    match node with
    | text value => normalizeFrom (pending ++ value) rest
    | _ => flush pending ++ node.normalizeRoot :: normalizeFrom "" rest

end

/-- Merges adjacent texts and drops empty ones, at every depth. -/
def normalize (nodes : List Node) : List Node :=
  normalizeFrom "" nodes

end DomTemplate.Node

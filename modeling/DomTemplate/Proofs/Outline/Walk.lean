import DomTemplate.Proofs.Outline.Basic
import DomTemplate.Stream.Walk

/-!
# The walk over an outline

The same as the walk over a scratch tree, with unbounded lengths for what is entered.  The steps of
a level follow its constant siblings from left to right and stop as soon as nothing to the right can
need a slot.  An element is entered only if a step is needed among its children.
-/

namespace DomTemplate.Outline

/-- The step over a node that is not entered. -/
def step (save : Bool) : WalkOp :=
  if save then .save else .next

/-- The step into a node with the steps over its children, or the step over it if there are none. -/
def stepInto (save : Bool) (inner : List WalkOp) : List WalkOp :=
  if inner.isEmpty then [step save] else .enter save inner.length :: inner

mutual

/-- The steps over one node and what stands below it. -/
def visit (save : Bool) : Outline → List WalkOp
  | element _ _ marks _ _ children =>
    stepInto save (if marks.dynamic then walk false false children else [])
  | text .. => [step save]
  | placeholder _ => []

/-- The steps over siblings.  `afterText` says that the last constant sibling was a text, and
`behindPlaceholder` that a placeholder came after it. -/
def walk (afterText behindPlaceholder : Bool) : List Outline → List WalkOp
  | [] => []
  | outline :: rest =>
    match outline with
    | element _ _ marks following .. =>
      let steps := visit (behindPlaceholder || marks.patched) outline
      if following.ends then
        if steps = [.next] then [] else steps
      else steps ++ walk false false rest
    | text _ following _ =>
      if behindPlaceholder then
        (if afterText then .remove else .save) :: walk true false rest
      else if following.ends then []
      else .next :: walk true false rest
    | placeholder _ => walk afterText true rest

end

/-- The walk stream of a root. -/
def walkStream : Outline → List WalkOp
  | element _ _ _ _ _ children => walk false false children
  | _ => []

end DomTemplate.Outline

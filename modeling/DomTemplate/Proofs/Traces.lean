import Mathlib
import DomTemplate.Proofs.Outline.Walk
import DomTemplate.Scratch.Walk

/-!
# The steps of a walk with their nodes

The trace of a walk has the same steps as the walk, each with the place of the node that it is
written for.
-/

namespace DomTemplate

/-! ## Outlines -/

namespace Outline

/-- The step into the node at a place, with the steps over its children, or the step over it if
there are none. -/
def traceInto (place : List Nat) (save : Bool) (inner : List (List Nat × WalkOp)) :
    List (List Nat × WalkOp) :=
  if inner.isEmpty then [(place, step save)] else (place, .enter save inner.length) :: inner

mutual

/-- The steps over the node at a place and what stands below it. -/
def traceVisit (place : List Nat) (save : Bool) : Outline → List (List Nat × WalkOp)
  | element _ _ marks _ _ children =>
    traceInto place save (if marks.dynamic then trace place 0 false false children else [])
  | text .. => [(place, step save)]
  | placeholder _ => []

/-- The steps over the children of the element at `place` from number `index` on. -/
def trace (place : List Nat) (index : Nat) (afterText behindPlaceholder : Bool) :
    List Outline → List (List Nat × WalkOp)
  | [] => []
  | outline :: rest =>
    match outline with
    | element _ _ marks following .. =>
      let steps := traceVisit (place ++ [index]) (behindPlaceholder || marks.patched) outline
      if following.ends then
        if steps.map Prod.snd = [.next] then [] else steps
      else steps ++ trace place (index + 1) false false rest
    | text _ following _ =>
      if behindPlaceholder then
        (place ++ [index], if afterText then .remove else .save) ::
          trace place (index + 1) true false rest
      else if following.ends then []
      else (place ++ [index], .next) :: trace place (index + 1) true false rest
    | placeholder _ => trace place (index + 1) afterText true rest

end

/-- The steps of the walk stream of a root, with their places. -/
def traceStream : Outline → List (List Nat × WalkOp)
  | element _ _ _ _ _ children => trace [] 0 false false children
  | _ => []

theorem map_snd_traceInto (place : List Nat) (save : Bool) (inner : List (List Nat × WalkOp)) :
    (traceInto place save inner).map Prod.snd = stepInto save (inner.map Prod.snd) := by
  cases inner <;> simp [traceInto, stepInto]

mutual

theorem map_snd_traceVisit (place : List Nat) (save : Bool) :
    ∀ outline : Outline, (traceVisit place save outline).map Prod.snd = visit save outline
  | element tag properties marks following slot children => by
      rw [traceVisit, map_snd_traceInto, visit]
      split
      · rw [map_snd_trace]
      · rfl
  | text value following slot => rfl
  | placeholder target => rfl

theorem map_snd_trace (place : List Nat) (index : Nat) (afterText behind : Bool) :
    ∀ outlines : List Outline,
      (trace place index afterText behind outlines).map Prod.snd = walk afterText behind outlines
  | [] => rfl
  | element tag properties marks following slot children :: rest => by
      have hvisit := map_snd_traceVisit (place ++ [index]) (behind || marks.patched)
        (element tag properties marks following slot children)
      simp only [trace, walk]
      rw [← hvisit]
      split
      · split
        · rfl
        · rfl
      · rw [List.map_append, map_snd_trace]
  | text value following slot :: rest => by
      simp only [trace, walk]
      split
      · rw [List.map_cons, map_snd_trace]
      · split
        · rfl
        · rw [List.map_cons, map_snd_trace]
  | placeholder target :: rest => by
      simp only [trace, walk, map_snd_trace]

end

theorem map_snd_traceStream (root : Outline) : root.traceStream.map Prod.snd = root.walkStream := by
  cases root with
  | element tag properties marks following slot children => exact map_snd_trace [] 0 false false _
  | text value following slot => rfl
  | placeholder target => rfl

end Outline

/-! ## Scratch trees -/

namespace Scratch

/-- The step over the node at a place and the steps over its children. -/
def traceInto (place : List Nat) (save : Bool) (inner : List (List Nat × WalkOp)) :
    List (List Nat × WalkOp) :=
  (place, step save (.ofNat inner.length)) :: inner

/-- Takes back a step over the last element of a level, if it records nothing. -/
def retractTrace (steps : List (List Nat × WalkOp)) : List (List Nat × WalkOp) :=
  if (steps.map Prod.snd).head? = some .next then steps.dropLast else steps

mutual

/-- The steps over the children of the node at a place. -/
def trace (place : List Nat) : Scratch → List (List Nat × WalkOp)
  | element _ _ _ _ _ _ children => traceAll place 0 false false children
  | _ => []

/-- The steps over the children of the element at `place` from number `index` on. -/
def traceAll (place : List Nat) (index : Nat) (afterText behindPlaceholder : Bool) :
    List Scratch → List (List Nat × WalkOp)
  | [] => []
  | node :: rest =>
    match node with
    | element .. =>
      let steps := traceInto (place ++ [index]) (behindPlaceholder || node.isPatched)
        (if node.isDynamic then trace (place ++ [index]) node else [])
      if node.isLast then retractTrace steps
      else steps ++ traceAll place (index + 1) false false rest
    | text .. =>
      if behindPlaceholder then
        (place ++ [index], if afterText then .remove else .save) ::
          traceAll place (index + 1) true false rest
      else if node.isLast then []
      else (place ++ [index], .next) :: traceAll place (index + 1) true false rest
    | placeholder .. => traceAll place (index + 1) afterText true rest

end

theorem map_snd_traceInto (place : List Nat) (save : Bool) (inner : List (List Nat × WalkOp)) :
    (traceInto place save inner).map Prod.snd = stepInto save (inner.map Prod.snd) := by
  rw [traceInto, stepInto, List.map_cons, List.length_map]

theorem map_snd_retractTrace (steps : List (List Nat × WalkOp)) :
    (retractTrace steps).map Prod.snd = retract (steps.map Prod.snd) := by
  rw [retractTrace, retract]
  split
  · rw [List.map_dropLast]
  · rfl

mutual

theorem map_snd_trace (place : List Nat) :
    ∀ node : Scratch, (trace place node).map Prod.snd = walk node
  | element .. => map_snd_traceAll ..
  | text .. => rfl
  | placeholder .. => rfl

/-- The steps of a trace are those of the walk. -/
theorem map_snd_traceAll (place : List Nat) (index : Nat) (afterText behind : Bool) :
    ∀ nodes : List Scratch,
      (traceAll place index afterText behind nodes).map Prod.snd = walkAll afterText behind nodes
  | [] => rfl
  | element tag properties bound mounts flags slot children :: rest => by
      let node := element tag properties bound mounts flags slot children
      have hinner : (if node.isDynamic then trace (place ++ [index]) node else []).map Prod.snd =
          if node.isDynamic then walk node else [] := by
        split
        · exact map_snd_trace (place ++ [index]) node
        · rfl
      simp only [traceAll, walkAll]
      split
      · rw [map_snd_retractTrace, map_snd_traceInto, hinner]
      · rw [List.map_append, map_snd_traceInto, hinner, map_snd_traceAll]
  | text value flags slot :: rest => by
      simp only [traceAll, walkAll]
      split
      · rw [List.map_cons, map_snd_traceAll]
      · split
        · rfl
        · rw [List.map_cons, map_snd_traceAll]
  | placeholder target flags :: rest => by
      simp only [traceAll, walkAll, map_snd_traceAll]

end

theorem walkAll_element (afterText behind : Bool) (tag : String) (properties : List Property)
    (bound mounts : UInt32) (flags : UInt8) (slot : UInt32) (children rest : List Scratch) :
    walkAll afterText behind (element tag properties bound mounts flags slot children :: rest) =
      let steps := stepInto (behind || (0 < bound || 0 < mounts))
        (if Flag.dynamic.isIn flags then walkAll false false children else [])
      if (element tag properties bound mounts flags slot children).isLast then retract steps
      else steps ++ walkAll false false rest := by
  rw [walkAll, walk]
  rfl

theorem traceAll_element (place : List Nat) (index : Nat) (afterText behind : Bool) (tag : String)
    (properties : List Property) (bound mounts : UInt32) (flags : UInt8) (slot : UInt32)
    (children rest : List Scratch) :
    traceAll place index afterText behind
        (element tag properties bound mounts flags slot children :: rest) =
      let steps := traceInto (place ++ [index]) (behind || (0 < bound || 0 < mounts))
        (if Flag.dynamic.isIn flags then traceAll (place ++ [index]) 0 false false children else [])
      if (element tag properties bound mounts flags slot children).isLast then retractTrace steps
      else steps ++ traceAll place (index + 1) false false rest := by
  rw [traceAll, trace]
  rfl

end Scratch

end DomTemplate

import Mathlib
import DomTemplate.Block.Basic
import DomTemplate.Proofs.Page.Basic

/-!
# Instances of a block

A block becomes an instance on a page, the clone of its shell, in three passes.  The walk takes the
separators out and collects the nodes of the slots.  The binding stream logs a value at an element
for each bound property.  The mounting stream inserts the nodes that placeholders are filled with.

The passes are strict: whatever an operation asks for and the page does not have is a fault.
-/

namespace DomTemplate

/-- What can go wrong while a page follows a stream. -/
inductive PageFault where
  /-- the cursor has passed the last sibling -/
  | noNode
  /-- an element is to be entered for no steps -/
  | noSteps
  /-- an element is to be entered for more steps than the level has left -/
  | overrun
  /-- the node is to be entered but is not an element -/
  | notElement
  /-- the node is to be taken out but is not a separator with a text right behind it -/
  | notSeparator
  | noSlot
  | noKey
  | noInput
  /-- the current element is not on the page, or lacks the current neighbour among its children -/
  | noTarget
deriving DecidableEq

/-- A change to the contents of one element. -/
inductive Change (ν : Type) where
  | record (entry : LogEntry ν)
  /-- put nodes in front of a child, or at the end; `first` is the number of the first of them -/
  | insert (next : Option NodeId) (first : Nat) (nodes : List ν)

namespace Dom

variable {ν : Type}

/-! ## The walk -/

/-- Follows the steps of one level.  The cursor stands on the first of the nodes, and what comes
before it on the level is done with.  The result is the level from the cursor on, without the
separators that were taken out, and the recorded nodes in order. -/
def follow (ops : List WalkOp) (nodes : List (Dom NodeId ν)) :
    Except PageFault (List (Dom NodeId ν) × List NodeId) :=
  match ops, nodes with
  | [], nodes => .ok (nodes, [])
  | _ :: _, [] => .error .noNode
  | .next :: ops, node :: rest => do
    let (rest, saved) ← follow ops rest
    .ok (node :: rest, saved)
  | .save :: ops, node :: rest => do
    let (rest, saved) ← follow ops rest
    .ok (node :: rest, node.id :: saved)
  | .enter save length :: ops, node :: rest =>
    match node with
    | element id tag attributes log children =>
      if length = 0 then .error .noSteps
      else if ops.length < length then .error .overrun
      else do
        let (children, inner) ← follow (ops.take length) children
        let (rest, saved) ← follow (ops.drop length) rest
        .ok (element id tag attributes log children :: rest,
          (if save then [id] else []) ++ inner ++ saved)
    | _ => .error .notElement
  | .remove :: ops, node :: rest =>
    match node, rest with
    | separator _, text id value :: rest => do
      let (rest, saved) ← follow ops rest
      .ok (text id value :: rest, id :: saved)
    | _, _ => .error .notSeparator
termination_by ops.length

/-- The walk over a page, with the nodes of the slots.  Slot 0 is the root. -/
def walk (ops : List WalkOp) : Dom NodeId ν → Except PageFault (Dom NodeId ν × List NodeId)
  | element id tag attributes log children => do
    let (children, saved) ← follow ops children
    .ok (element id tag attributes log children, id :: saved)
  | _ => .error .notElement

/-! ## Changes -/

/-- Nodes to be inserted, with their identities. -/
def label (first : Nat) : List ν → List (Dom NodeId ν)
  | [] => []
  | node :: rest => mounted (.mounted first) node :: label (first + 1) rest

/-- Puts nodes in front of the one that is named, or at the end. -/
def insertBefore (next : Option NodeId) (new : List (Dom NodeId ν)) :
    List (Dom NodeId ν) → List (Dom NodeId ν)
  | [] => new
  | node :: rest =>
    if next = some node.id then new ++ node :: rest else node :: insertBefore next new rest

/-- The log and the children of an element after a change. -/
def change : Change ν → List (LogEntry ν) × List (Dom NodeId ν) →
    List (LogEntry ν) × List (Dom NodeId ν)
  | .record entry, (log, children) => (log ++ [entry], children)
  | .insert next first nodes, (log, children) =>
    (log, insertBefore next (label first nodes) children)

mutual

/-- Changes the element with a given identity. -/
def amend (target : NodeId) (c : Change ν) : Dom NodeId ν → Dom NodeId ν
  | element id tag attributes log children =>
    let contents := (log, amendAll target c children)
    let contents := if id = target then change c contents else contents
    element id tag attributes contents.1 contents.2
  | text id value => text id value
  | separator id => separator id
  | mounted id node => mounted id node

def amendAll (target : NodeId) (c : Change ν) : List (Dom NodeId ν) → List (Dom NodeId ν)
  | [] => []
  | node :: rest => amend target c node :: amendAll target c rest

end

mutual

/-- The elements of a page, each with its children. -/
def elements : Dom NodeId ν → List (NodeId × List NodeId)
  | element id _ _ _ children => (id, children.map Dom.id) :: elementsAll children
  | text .. => []
  | separator _ => []
  | mounted .. => []

def elementsAll : List (Dom NodeId ν) → List (NodeId × List NodeId)
  | [] => []
  | node :: rest => elements node ++ elementsAll rest

end

/-- Whether a page has an element `parent`, with `next` among its children if it is given. -/
def accepts (page : Dom NodeId ν) (parent : NodeId) (next : Option NodeId) : Bool :=
  page.elements.any fun (id, children) => id = parent && next.all (· ∈ children)

end Dom

/-! ## The other passes -/

/-- What the operations of a block refer to by number, and what the placeholders are filled with. -/
structure Scope (ν : Type) where
  slots : List NodeId
  keys : List String
  inputs : List Placeholder
  fill : Placeholder → List ν

/-- A page with the point at which nodes are inserted, and the number of the next one. -/
structure Mounting (ν : Type) where
  parent : NodeId
  next : Option NodeId
  count : Nat
  page : Dom NodeId ν

namespace Scope

variable {ν : Type}

def slot (scope : Scope ν) (slot : Nat) : Except PageFault NodeId :=
  match scope.slots[slot]? with
  | some id => .ok id
  | none => .error .noSlot

def key (scope : Scope ν) (key : Nat) : Except PageFault String :=
  match scope.keys[key]? with
  | some name => .ok name
  | none => .error .noKey

/-- The value of an input. -/
def value (scope : Scope ν) (input : Nat) : Except PageFault (List ν) :=
  match scope.inputs[input]? with
  | some target => .ok (scope.fill target)
  | none => .error .noInput

/-- Logs the value of an input at the current element. -/
def record (scope : Scope ν) (current : NodeId) (page : Dom NodeId ν) (destination : Destination)
    (input : Nat) : Except PageFault (NodeId × Dom NodeId ν) := do
  let value ← scope.value input
  if page.accepts current none then
    .ok (current, page.amend current (.record ⟨destination, value⟩))
  else .error .noTarget

/-- One operation of the binding stream, given the current element and the page. -/
def bindStep (scope : Scope ν) (state : NodeId × Dom NodeId ν) :
    BindOp → Except PageFault (NodeId × Dom NodeId ν)
  | .setNode slot => do
    let current ← scope.slot slot
    .ok (current, state.2)
  | .common property input => scope.record state.1 state.2 (.common property.name) input
  | .keyed binding key input => do
    let name ← scope.key key
    scope.record state.1 state.2 (.keyed binding name) input
  | .directive input => scope.record state.1 state.2 .directive input

/-- One operation of the mounting stream.  If nodes have been inserted, the first of them is the
neighbour of the next insertion. -/
def mountStep (scope : Scope ν) (state : Mounting ν) : MountOp → Except PageFault (Mounting ν)
  | .child input => do
    let nodes ← scope.value input
    if state.page.accepts state.parent state.next then
      .ok { state with
        next := if nodes.isEmpty then state.next else some (.mounted state.count)
        count := state.count + nodes.length
        page := state.page.amend state.parent (.insert state.next state.count nodes) }
    else .error .noTarget
  | .setNext slot => do
    let next ← scope.slot slot
    .ok { state with next := some next }
  | .setParent slot => do
    let parent ← scope.slot slot
    .ok { state with parent, next := none }

end Scope

/-- The instance of a block on a page.  The current element is the root at first. -/
def Block.instantiate {ν : Type} (block : Block) (fill : Placeholder → List ν)
    (page : Dom NodeId ν) : Except PageFault (Dom NodeId ν) := do
  let (page, slots) ← page.walk block.walk
  let scope : Scope ν := ⟨slots, block.keys, block.inputs, fill⟩
  let (_, page) ← block.binds.foldlM scope.bindStep (page.id, page)
  let state ← block.mounts.foldlM scope.mountStep ⟨page.id, none, 0, page⟩
  .ok state.page

end DomTemplate

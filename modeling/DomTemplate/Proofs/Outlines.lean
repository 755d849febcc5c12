import Mathlib
import DomTemplate.Proofs.Outline.Slots

/-!
# Places in trees and outlines

A place is a way down from a root, as a list of child numbers.  The outline of a tree has the same
places as the tree, before and after its slots are filled in, and what it notes at an element can be
read off the element.
-/

namespace DomTemplate

/-! ## Places -/

namespace Node

def children : Node → List Node
  | element _ _ children => children
  | _ => []

/-- The node at a place below a node. -/
def at? : Node → List Nat → Option Node
  | node, [] => some node
  | node, index :: rest => node.children[index]?.bind fun child => child.at? rest

/-- Whether an element with these properties and children is changed at run time. -/
def patched (properties : List Property) (children : List Node) : Bool :=
  properties.any Property.isDynamic || children.any isPlaceholder

/-- Whether a node below the root has to be found again, given whether it is right behind a
placeholder. -/
def needsSlot (behindPlaceholder : Bool) : Node → Bool
  | element _ properties children => behindPlaceholder || patched properties children
  | text _ => behindPlaceholder
  | placeholder _ => false

end Node

namespace Outline

def children : Outline → List Outline
  | element _ _ _ _ _ children => children
  | _ => []

/-- The outline at a place below an outline. -/
def at? : Outline → List Nat → Option Outline
  | outline, [] => some outline
  | outline, index :: rest => outline.children[index]?.bind fun child => child.at? rest

theorem at?_append_below (outline : Outline) (place below : List Nat) :
    outline.at? (place ++ below) = (outline.at? place).bind fun found => found.at? below := by
  induction place generalizing outline with
  | nil => rfl
  | cons first rest ih => simp [at?, ih, Option.bind_assoc]

theorem at?_append (outline : Outline) (place : List Nat) (index : Nat) :
    outline.at? (place ++ [index]) = (outline.at? place).bind fun parent =>
      parent.children[index]? := by
  rw [at?_append_below]
  simp [at?]

mutual

/-- All outlines at and below an outline with their places, in document order. -/
def nodes (place : List Nat) : Outline → List (List Nat × Outline)
  | element tag properties marks following slot children =>
    (place, element tag properties marks following slot children) :: nodesAll place 0 children
  | text value following slot => [(place, text value following slot)]
  | placeholder target => [(place, placeholder target)]

def nodesAll (place : List Nat) (index : Nat) : List Outline → List (List Nat × Outline)
  | [] => []
  | outline :: rest => nodes (place ++ [index]) outline ++ nodesAll place (index + 1) rest

end

theorem nodes_eq (place : List Nat) (outline : Outline) :
    outline.nodes place = (place, outline) :: nodesAll place 0 outline.children := by
  cases outline <;> rfl

theorem mem_nodes_of_children (place : List Nat) {other : List Nat} {outline found : Outline}
    (h : (other, found) ∈ nodesAll place 0 outline.children ↔
      ∃ k below, other = place ++ (0 + k) :: below ∧
        (outline.children[k]?.bind fun child => child.at? below) = some found) :
    (other, found) ∈ outline.nodes place ↔
      ∃ below, other = place ++ below ∧ outline.at? below = some found := by
  rw [nodes_eq, List.mem_cons, h]
  constructor
  · rintro (hself | ⟨k, below, rfl, hfound⟩)
    · obtain ⟨rfl, rfl⟩ := Prod.mk.inj hself
      exact ⟨[], by simp, rfl⟩
    · exact ⟨k :: below, by simp, hfound⟩
  · rintro ⟨below, rfl, hfound⟩
    cases below with
    | nil =>
        left
        simpa [at?, eq_comm] using hfound
    | cons k below => exact .inr ⟨k, below, by simp, hfound⟩

mutual

theorem mem_nodes (place : List Nat) {other : List Nat} {found : Outline} :
    ∀ {outline : Outline}, (other, found) ∈ outline.nodes place ↔
      ∃ below, other = place ++ below ∧ outline.at? below = some found
  | element tag properties marks following slot children =>
      mem_nodes_of_children place (mem_nodesAll place)
  | text value following slot => mem_nodes_of_children place (by simp [children, nodesAll])
  | placeholder target => mem_nodes_of_children place (by simp [children, nodesAll])

theorem mem_nodesAll (place : List Nat) {index : Nat} {other : List Nat} {found : Outline} :
    ∀ {outlines : List Outline}, (other, found) ∈ nodesAll place index outlines ↔
      ∃ k below, other = place ++ (index + k) :: below ∧
        (outlines[k]?.bind fun child => child.at? below) = some found
  | [] => by
      simp [nodesAll]
  | outline :: rest => by
      rw [nodesAll, List.mem_append, mem_nodes, mem_nodesAll]
      constructor
      · rintro (⟨below, rfl, hfound⟩ | ⟨k, below, rfl, hfound⟩)
        · exact ⟨0, below, by simp, by simpa using hfound⟩
        · exact ⟨k + 1, below, by rw [Nat.add_right_comm, Nat.add_assoc], by simpa using hfound⟩
      · rintro ⟨k, below, rfl, hfound⟩
        cases k with
        | zero => exact .inl ⟨below, by simp, by simpa using hfound⟩
        | succ k =>
            exact .inr ⟨k, below, by rw [Nat.add_right_comm, Nat.add_assoc], by simpa using hfound⟩

end

/-! ## Numbered outlines -/

theorem ofNodes_cons (node : Node) (rest : List Node) :
    ofNodes (node :: rest) =
      (ofNode (ofNodes rest).2 node :: (ofNodes rest).1,
        extend (ofNodes rest).2 (ofNode (ofNodes rest).2 node)) := by
  rw [ofNodes]

theorem isPlaceholder_ofNode (following : Following) (node : Node) :
    (ofNode following node).isPlaceholder = node.isPlaceholder := by
  cases node <;> rfl

/-- What is noted at an element. -/
def marksOf (properties : List Property) (children : List Node) : Marks :=
  ⟨properties.countP Property.isDynamic, children.countP Node.isPlaceholder,
    0 < properties.countP Property.isDynamic || (ofNodes children).2.dynamic⟩

theorem ofNode_element (following : Following) (tag : String) (properties : List Property)
    (children : List Node) :
    ofNode following (.element tag properties children) =
      element tag properties (marksOf properties children) following none
        (ofNodes children).1 := by
  rw [ofNode]
  rfl

theorem marksOf_patched (properties : List Property) (children : List Node) :
    (marksOf properties children).patched = Node.patched properties children := by
  rw [Bool.eq_iff_iff]
  simp [marksOf, Marks.patched, Node.patched, List.countP_pos_iff]

/-- The slot of a node that gets the next one if it needs one. -/
def slotIf (needed : Bool) (next : Nat) : Option Nat :=
  if needed then some next else none

theorem number_element (behind : Bool) (next : Nat) (following : Following) (tag : String)
    (properties : List Property) (children : List Node) :
    number behind next (ofNode following (.element tag properties children)) =
      let needed := behind || Node.patched properties children
      let inner := numberAll false (if needed then next + 1 else next) (ofNodes children).1
      (element tag properties (marksOf properties children) following (slotIf needed next) inner.1,
        inner.2) := by
  rw [ofNode_element, number, marksOf_patched]
  cases behind || Node.patched properties children <;> rfl

theorem number_text (behind : Bool) (next : Nat) (following : Following) (value : String) :
    number behind next (ofNode following (.text value)) =
      (text value following (slotIf behind next), if behind then next + 1 else next) := by
  cases behind <;> rfl

theorem number_placeholder (behind : Bool) (next : Nat) (following : Following)
    (target : Placeholder) :
    number behind next (ofNode following (.placeholder target)) = (placeholder target, next) := by
  rfl

theorem isPlaceholder_number (behind : Bool) (next : Nat) (outline : Outline) :
    (number behind next outline).1.isPlaceholder = outline.isPlaceholder := by
  cases outline with
  | element tag properties marks following slot children =>
      rw [number]
      split <;> rfl
  | text value following slot => cases behind <;> rfl
  | placeholder target => rfl

/-- A node gets the next slot if it needs one. -/
theorem slot?_number (behind : Bool) (next : Nat) (following : Following) (node : Node) :
    (number behind next (ofNode following node)).1.slot? =
      slotIf (node.needsSlot behind) next := by
  cases node with
  | element tag properties children => rw [number_element]; rfl
  | text value => rw [number_text]; rfl
  | placeholder target => rfl

theorem numberAll_cons (behind : Bool) (next : Nat) (node : Node) (rest : List Node) :
    numberAll behind next (ofNodes (node :: rest)).1 =
      let own := number behind next (ofNode (ofNodes rest).2 node)
      let more := numberAll node.isPlaceholder own.2 (ofNodes rest).1
      (own.1 :: more.1, more.2) := by
  rw [ofNodes_cons, numberAll, isPlaceholder_ofNode]

/-! ## Outlines that show a node -/

/-- An outline shows a node if it has its sort, tells what there is to tell about it, and has the
numbered outlines of its children. -/
inductive Shows : Outline → Node → Prop where
  | element (tag : String) (properties : List Property) (following : Following)
      (slot : Option Nat) (children : List Node) (next : Nat) :
      Shows (.element tag properties (marksOf properties children) following slot
        (numberAll false next (ofNodes children).1).1) (.element tag properties children)
  | text (value : String) (following : Following) (slot : Option Nat) :
      Shows (.text value following slot) (.text value)
  | placeholder (target : Placeholder) : Shows (.placeholder target) (.placeholder target)

theorem shows_number (behind : Bool) (next : Nat) (following : Following) (node : Node) :
    Shows (number behind next (ofNode following node)).1 node := by
  cases node with
  | element tag properties children =>
      rw [number_element]
      exact .element ..
  | text value =>
      rw [number_text]
      exact .text ..
  | placeholder target => exact .placeholder target

/-- A sibling in a numbered outline, with whether it is right behind a placeholder. -/
theorem getElem?_numberAll {behind : Bool} {next k : Nat} {nodes : List Node} {outline : Outline}
    (h : (numberAll behind next (ofNodes nodes).1).1[k]? = some outline) :
    ∃ node free following, nodes[k]? = some node ∧
      outline = (number ((behind :: nodes.map Node.isPlaceholder).getD k false) free
        (ofNode following node)).1 := by
  induction nodes generalizing behind next k with
  | nil => simp [ofNodes, numberAll] at h
  | cons node rest ih =>
      rw [numberAll_cons] at h
      cases k with
      | zero =>
          rw [List.getElem?_cons_zero, Option.some.injEq] at h
          exact ⟨node, next, _, rfl, by simpa using h.symm⟩
      | succ k =>
          obtain ⟨found, free, following, hfound, houtline⟩ := ih h
          exact ⟨found, free, following, hfound, by simpa using houtline⟩

theorem Shows.children_eq {outline : Outline} {node : Node} (h : Shows outline node) :
    ∃ next, outline.children = (numberAll false next (ofNodes node.children).1).1 := by
  cases h with
  | element tag properties following slot children next => exact ⟨next, rfl⟩
  | text value following slot => exact ⟨0, rfl⟩
  | placeholder target => exact ⟨0, rfl⟩

/-- A child of an outline that shows a node. -/
theorem Shows.child {outline child : Outline} {node : Node} (h : Shows outline node) {k : Nat}
    (hchild : outline.children[k]? = some child) :
    ∃ inner free following, node.children[k]? = some inner ∧
      child = (number ((false :: node.children.map Node.isPlaceholder).getD k false) free
        (ofNode following inner)).1 := by
  obtain ⟨next, hchildren⟩ := h.children_eq
  rw [hchildren] at hchild
  exact getElem?_numberAll hchild

theorem Shows.at? {outline found : Outline} {node : Node} (h : Shows outline node)
    {place : List Nat} (hfound : outline.at? place = some found) :
    ∃ other, node.at? place = some other ∧ Shows found other := by
  induction place generalizing outline node with
  | nil =>
      cases hfound
      exact ⟨node, rfl, h⟩
  | cons index rest ih =>
      obtain ⟨child, hchild, hfound⟩ := Option.bind_eq_some_iff.mp hfound
      obtain ⟨other, free, following, hother, rfl⟩ := h.child hchild
      obtain ⟨below, hbelow, hshows⟩ := ih (shows_number _ _ _ _) hfound
      exact ⟨below, by simp [Node.at?, hother, hbelow], hshows⟩

end Outline

end DomTemplate

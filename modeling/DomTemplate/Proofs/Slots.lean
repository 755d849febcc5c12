import Mathlib
import DomTemplate.Proofs.Outlines

/-!
# Which nodes have slots

The nodes below a root that the block has to find again are those that are patched and those right
behind a placeholder.  Numbering gives them the slots from 1 on in document order.
-/

namespace DomTemplate

namespace Node

mutual

/-- The places of the nodes that need a slot at and below a node, in document order. -/
def saved (place : List Nat) (behindPlaceholder : Bool) : Node → List (List Nat)
  | element _ properties children =>
    (if behindPlaceholder || patched properties children then [place] else []) ++
      savedAll place 0 false children
  | text _ => if behindPlaceholder then [place] else []
  | placeholder _ => []

/-- The same for the children of the element at `place` from number `index` on. -/
def savedAll (place : List Nat) (index : Nat) (behindPlaceholder : Bool) :
    List Node → List (List Nat)
  | [] => []
  | node :: rest =>
    saved (place ++ [index]) behindPlaceholder node ++
      savedAll place (index + 1) node.isPlaceholder rest

end

end Node

namespace Outline

/-- The slot of the node at a place, if it has one. -/
def slotAt? (outline : Outline) (place : List Nat) : Option Nat :=
  (outline.at? place).bind slot?

/-- Some of the nodes with their slots. -/
def slots (nodes : List (List Nat × Outline)) : List (List Nat × Nat) :=
  nodes.filterMap fun (place, outline) => outline.slot?.map (place, ·)

/-- All slots at and below an outline with their places, in document order. -/
def slotted (place : List Nat) (outline : Outline) : List (List Nat × Nat) :=
  slots (outline.nodes place)

def slottedAll (place : List Nat) (index : Nat) (outlines : List Outline) : List (List Nat × Nat) :=
  slots (nodesAll place index outlines)

theorem slots_append (nodes more : List (List Nat × Outline)) :
    slots (nodes ++ more) = slots nodes ++ slots more := by
  simp [slots]

theorem slotted_eq (place : List Nat) (outline : Outline) :
    outline.slotted place =
      outline.slot?.toList.map (place, ·) ++ slottedAll place 0 outline.children := by
  rw [slotted, nodes_eq, slottedAll, slots]
  cases hslot : outline.slot? <;> simp [slots, hslot]

theorem slottedAll_nil (place : List Nat) (index : Nat) : slottedAll place index [] = [] := rfl

theorem slottedAll_cons (place : List Nat) (index : Nat) (outline : Outline)
    (rest : List Outline) :
    slottedAll place index (outline :: rest) =
      outline.slotted (place ++ [index]) ++ slottedAll place (index + 1) rest := by
  rw [slottedAll, nodesAll, slots_append]
  rfl

theorem mem_slotted (place : List Nat) {other : List Nat} {slot : Nat} {outline : Outline} :
    (other, slot) ∈ outline.slotted place ↔
      ∃ below, other = place ++ below ∧ outline.slotAt? below = some slot := by
  simp only [slotted, slots, List.mem_filterMap, Prod.exists, mem_nodes, slotAt?,
    Option.bind_eq_some_iff]
  constructor
  · rintro ⟨_, found, ⟨below, rfl, hfound⟩, hslot⟩
    obtain ⟨_, hown, heq⟩ := Option.map_eq_some_iff.mp hslot
    obtain ⟨rfl, rfl⟩ := Prod.mk.inj heq
    exact ⟨below, rfl, found, hfound, hown⟩
  · rintro ⟨below, rfl, found, hfound, hslot⟩
    exact ⟨_, found, ⟨below, rfl, hfound⟩, by simp [hslot]⟩

theorem mem_slottedAll_of_slotAt? (place : List Nat) (index : Nat) {outlines : List Outline}
    {k slot : Nat} {below : List Nat}
    (h : (outlines[k]?.bind fun outline => outline.slotAt? below) = some slot) :
    (place ++ (index + k) :: below, slot) ∈ slottedAll place index outlines := by
  obtain ⟨outline, houtline, hslot⟩ := Option.bind_eq_some_iff.mp h
  obtain ⟨found, hfound, hslot⟩ := Option.bind_eq_some_iff.mp hslot
  have hmem : (place ++ (index + k) :: below, found) ∈ nodesAll place index outlines :=
    (mem_nodesAll place).mpr ⟨k, below, rfl, by rw [houtline]; exact hfound⟩
  exact List.mem_filterMap.mpr ⟨_, hmem, Option.map_eq_some_iff.mpr ⟨slot, hslot, rfl⟩⟩

theorem mem_slotted_self (place : List Nat) {outline : Outline} {slot : Nat}
    (h : outline.slot? = some slot) : (place, slot) ∈ outline.slotted place :=
  (mem_slotted place).mpr ⟨[], by simp, by simpa [slotAt?, at?] using h⟩

/-! ## Numbering -/

mutual

/-- Numbering gives the nodes that need a slot the slots from `next` on, in document order. -/
theorem slotted_number (place : List Nat) (behind : Bool) (next : Nat) (following : Following) :
    ∀ node : Node,
      (number behind next (ofNode following node)).1.slotted place =
          (node.saved place behind).zipIdx next ∧
        (number behind next (ofNode following node)).2 =
          next + (node.saved place behind).length
  | .element tag properties children => by
      rw [number_element, Node.saved]
      cases hneeded : behind || Node.patched properties children with
      | false =>
          obtain ⟨hinner, hfree⟩ := slottedAll_numberAll place 0 false next children
          simp [slotted_eq, slot?, Outline.children, slotIf, hinner, hfree]
      | true =>
          obtain ⟨hinner, hfree⟩ := slottedAll_numberAll place 0 false (next + 1) children
          simp [slotted_eq, slot?, Outline.children, slotIf, hinner, hfree, List.zipIdx_cons]
          omega
  | .text value => by
      rw [number_text, Node.saved]
      cases behind <;> simp [slotted_eq, slot?, children, slotIf, slottedAll_nil]
  | .placeholder target => by
      simp [number_placeholder, slotted_eq, slot?, children, slottedAll_nil, Node.saved]

theorem slottedAll_numberAll (place : List Nat) (index : Nat) (behind : Bool) (next : Nat) :
    ∀ nodes : List Node,
      slottedAll place index (numberAll behind next (ofNodes nodes).1).1 =
          (Node.savedAll place index behind nodes).zipIdx next ∧
        (numberAll behind next (ofNodes nodes).1).2 =
          next + (Node.savedAll place index behind nodes).length
  | [] => by
      simp [ofNodes, numberAll, slottedAll_nil, Node.savedAll]
  | node :: rest => by
      obtain ⟨hown, hfree⟩ :=
        slotted_number (place ++ [index]) behind next (ofNodes rest).2 node
      obtain ⟨hmore, hlast⟩ := slottedAll_numberAll place (index + 1) node.isPlaceholder
        (next + (Node.saved (place ++ [index]) behind node).length) rest
      rw [numberAll_cons, Node.savedAll]
      simp only [slottedAll_cons, hown, hfree, hmore, hlast, List.zipIdx_append, List.length_append]
      exact ⟨trivial, by omega⟩

end

end Outline

namespace Element

/-- The outline of a root element with its slots. -/
def outline (e : Element) : Outline :=
  (Outline.ofNode .nothing e.toNode).numberRoot.1

/-- The number of slots of a root element, with the one of the root itself. -/
def slotCount (e : Element) : Nat :=
  (Outline.ofNode .nothing e.toNode).numberRoot.2

/-- The places below a root element whose nodes need a slot, in document order. -/
def saved (e : Element) : List (List Nat) :=
  Node.savedAll [] 0 false e.children

theorem outline_eq (e : Element) :
    e.outline = .element e.tag e.properties (Outline.marksOf e.properties e.children) .nothing none
      (Outline.numberAll false 1 (Outline.ofNodes e.children).1).1 := by
  rw [outline, toNode, Outline.ofNode_element]
  rfl

theorem slotCount_eq (e : Element) : e.slotCount = 1 + e.saved.length := by
  rw [slotCount, toNode, Outline.ofNode_element]
  exact (Outline.slottedAll_numberAll [] 0 false 1 e.children).2

theorem slotted_outline (e : Element) : e.outline.slotted [] = e.saved.zipIdx 1 := by
  rw [outline_eq, Outline.slotted_eq]
  exact (Outline.slottedAll_numberAll [] 0 false 1 e.children).1

/-- Slot `k` belongs to the `k`-th of the nodes that need one. -/
theorem slotAt?_outline_iff (e : Element) (place : List Nat) (slot : Nat) :
    e.outline.slotAt? place = some slot ↔ 0 < slot ∧ e.saved[slot - 1]? = some place := by
  have hmem : (place, slot) ∈ e.outline.slotted [] ↔ e.outline.slotAt? place = some slot := by
    simp [Outline.mem_slotted]
  rw [← hmem, slotted_outline, List.mk_mem_zipIdx_iff_le_and_getElem?_sub]
  rfl

theorem slot_pos (e : Element) {place : List Nat} {slot : Nat}
    (h : e.outline.slotAt? place = some slot) : 0 < slot :=
  ((e.slotAt?_outline_iff place slot).mp h).1

theorem slot_lt (e : Element) {place : List Nat} {slot : Nat}
    (h : e.outline.slotAt? place = some slot) : slot < e.slotCount := by
  obtain ⟨hpos, hplace⟩ := (e.slotAt?_outline_iff place slot).mp h
  obtain ⟨hlt, -⟩ := List.getElem?_eq_some_iff.mp hplace
  rw [e.slotCount_eq]
  omega

/-- The slots from 1 on have been given out. -/
theorem exists_slotAt?_iff (e : Element) (slot : Nat) :
    (∃ place, e.outline.slotAt? place = some slot) ↔ 0 < slot ∧ slot < e.slotCount := by
  constructor
  · rintro ⟨place, hslot⟩
    exact ⟨e.slot_pos hslot, e.slot_lt hslot⟩
  · rintro ⟨hpos, hlt⟩
    rw [e.slotCount_eq] at hlt
    have hindex : slot - 1 < e.saved.length := by omega
    exact ⟨_, (e.slotAt?_outline_iff _ _).mpr ⟨hpos, List.getElem?_eq_getElem hindex⟩⟩

end Element

end DomTemplate

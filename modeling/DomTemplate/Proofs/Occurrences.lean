import Mathlib
import DomTemplate.Proofs.Placeholders
import DomTemplate.Proofs.Slots

/-!
# Where placeholders occur

A placeholder occurs where a property is bound to it and where it stands between nodes.  Both sorts
of occurrences are listed with their places: the bound properties in document order, and the
placeholders between nodes in the order of their insertion, which begins with the children of an
element from right to left and then goes through the children, from right to left as well.
-/

namespace DomTemplate

/-! ## Nodes and their places -/

namespace Node

mutual

/-- All nodes at and below a node with their places, in document order. -/
def placed (place : List Nat) : Node → List (List Nat × Node)
  | element tag properties children =>
    (place, element tag properties children) :: placedAll place 0 children
  | text value => [(place, text value)]
  | placeholder target => [(place, placeholder target)]

/-- The same for the children of the element at `place` from number `index` on. -/
def placedAll (place : List Nat) (index : Nat) : List Node → List (List Nat × Node)
  | [] => []
  | node :: rest => placed (place ++ [index]) node ++ placedAll place (index + 1) rest

end

/-- The properties of a node, if it is an element. -/
def properties : Node → List Property
  | element _ properties _ => properties
  | _ => []

/-- The placeholder that a node is, if it is one. -/
def target? : Node → Option Placeholder
  | placeholder target => some target
  | _ => none

/-- The hole that a node at a place is, if it is a placeholder. -/
def hole? (found : List Nat × Node) : Option (List Nat × Placeholder) :=
  found.2.target?.map (found.1, ·)

mutual

/-- The placeholders of a node are those of the properties and nodes in it. -/
theorem targets_eq_flatMap (place : List Nat) :
    ∀ node : Node, node.targets = (placed place node).flatMap fun found =>
      found.2.properties.filterMap Property.target? ++ found.2.target?.toList
  | element tag properties children => by
      rw [targets, placed, List.flatMap_cons, targetsAll_eq_flatMap place 0 children]
      simp [Node.properties, target?]
  | text value => rfl
  | placeholder target => rfl

theorem targetsAll_eq_flatMap (place : List Nat) (index : Nat) :
    ∀ nodes : List Node, targetsAll nodes = (placedAll place index nodes).flatMap fun found =>
      found.2.properties.filterMap Property.target? ++ found.2.target?.toList
  | [] => rfl
  | node :: rest => by
      rw [targetsAll, placedAll, List.flatMap_append, ← targets_eq_flatMap (place ++ [index]) node,
        ← targetsAll_eq_flatMap place (index + 1) rest]

end

/-! ## The order of insertion -/

/-- The placeholders among the children of the element at `place` from number `index` on. -/
def ownHoles (place : List Nat) (index : Nat) : List Node → List (List Nat × Placeholder)
  | [] => []
  | node :: rest => (hole? (place ++ [index], node)).toList ++ ownHoles place (index + 1) rest

mutual

/-- The placeholders below a node in the order in which they are inserted. -/
def insertionOrder (place : List Nat) : Node → List (List Nat × Placeholder)
  | element _ _ children =>
    (ownHoles place 0 children).reverse ++ insertionOrderAll place 0 children
  | text _ => []
  | placeholder _ => []

/-- The same for what is below the children of the element at `place` from number `index` on. -/
def insertionOrderAll (place : List Nat) (index : Nat) :
    List Node → List (List Nat × Placeholder)
  | [] => []
  | node :: rest =>
    insertionOrderAll place (index + 1) rest ++ insertionOrder (place ++ [index]) node

end

mutual

/-- Each placeholder below a node has its turn once. -/
theorem perm_insertionOrder (place : List Nat) :
    ∀ node : Node, ((hole? (place, node)).toList ++ insertionOrder place node).Perm
      ((placed place node).filterMap hole?)
  | element tag properties children => by
      have hbelow := perm_insertionOrderAll place 0 children
      rw [insertionOrder, placed, List.filterMap_cons_none (by rfl)]
      exact ((List.reverse_perm _).append_right _).trans hbelow
  | text value => List.Perm.refl _
  | placeholder target => List.Perm.refl _

theorem perm_insertionOrderAll (place : List Nat) (index : Nat) :
    ∀ nodes : List Node, (ownHoles place index nodes ++ insertionOrderAll place index nodes).Perm
      ((placedAll place index nodes).filterMap hole?)
  | [] => List.Perm.refl _
  | node :: rest => by
      have hown := perm_insertionOrder (place ++ [index]) node
      have hrest := perm_insertionOrderAll place (index + 1) rest
      rw [ownHoles, insertionOrderAll, placedAll, List.filterMap_append]
      -- What is below the first child comes last, and is moved up to the child itself.
      have hmove : ∀ {own holes later inner : List (List Nat × Placeholder)},
          (own ++ holes ++ (later ++ inner)).Perm (own ++ inner ++ (holes ++ later)) := by
        intro own holes later inner
        rw [List.append_assoc, List.append_assoc, ← List.append_assoc holes]
        exact List.perm_append_comm.append_left own
      exact hmove.trans (hown.append hrest)

end

end Node

namespace Outline

mutual

/-- The node that an outline is about. -/
def source : Outline → Node
  | element tag properties _ _ _ children => .element tag properties (sourceAll children)
  | text value _ _ => .text value
  | placeholder target => .placeholder target

def sourceAll : List Outline → List Node
  | [] => []
  | outline :: rest => source outline :: sourceAll rest

end

mutual

/-- An outline has the nodes of its source at the same places and in the same order. -/
theorem map_nodes (place : List Nat) :
    ∀ outline : Outline,
      (outline.nodes place).map (Prod.map id source) = outline.source.placed place
  | element tag properties marks following slot children => by
      rw [nodes, List.map_cons, map_nodesAll place 0 children]
      rfl
  | text value following slot => rfl
  | placeholder target => rfl

theorem map_nodesAll (place : List Nat) (index : Nat) :
    ∀ outlines : List Outline,
      (nodesAll place index outlines).map (Prod.map id source) =
        Node.placedAll place index (sourceAll outlines)
  | [] => rfl
  | outline :: rest => by
      rw [nodesAll, List.map_append, map_nodes (place ++ [index]) outline,
        map_nodesAll place (index + 1) rest]
      rfl

end

mutual

theorem source_number (behind : Bool) (next : Nat) (following : Following) :
    ∀ node : Node, (number behind next (ofNode following node)).1.source = node
  | .element tag properties children => by
      rw [number_element, source, sourceAll_numberAll]
  | .text value => by
      rw [number_text]
      rfl
  | .placeholder target => rfl

theorem sourceAll_numberAll (behind : Bool) (next : Nat) :
    ∀ nodes : List Node, sourceAll (numberAll behind next (ofNodes nodes).1).1 = nodes
  | [] => rfl
  | node :: rest => by
      rw [numberAll_cons, sourceAll, source_number, sourceAll_numberAll]

end

end Outline

/-- An outline that shows a node is about this node. -/
theorem Outline.Shows.source_eq {outline : Outline} {node : Node} (h : outline.Shows node) :
    outline.source = node := by
  cases h with
  | element tag properties following slot children next =>
      rw [Outline.source, Outline.sourceAll_numberAll]
  | text value following slot => rfl
  | placeholder target => rfl

namespace Element

/-- All nodes of a root element with their places, in document order. -/
def placed (e : Element) : List (List Nat × Node) :=
  e.toNode.placed []

theorem map_nodes_outline (e : Element) :
    (e.outline.nodes []).map (Prod.map id Outline.source) = e.placed := by
  rw [Outline.map_nodes, outline_eq, Outline.source, Outline.sourceAll_numberAll]
  rfl

/-- The bound properties of a root element in document order, with the places of their elements. -/
def boundProperties (e : Element) : List (List Nat × Property) :=
  e.placed.flatMap fun (place, node) => (node.properties.filter Property.isDynamic).map (place, ·)

/-- The placeholders that stand between nodes of a root element, in document order. -/
def holes (e : Element) : List (List Nat × Placeholder) :=
  e.placed.filterMap Node.hole?

/-- The same placeholders in the order of insertion. -/
def insertionOrder (e : Element) : List (List Nat × Placeholder) :=
  e.toNode.insertionOrder []

theorem perm_insertionOrder (e : Element) : e.insertionOrder.Perm e.holes :=
  e.toNode.perm_insertionOrder []

/-- The placeholders that properties are bound to, in document order and with repetitions. -/
def boundTargets (e : Element) : List Placeholder :=
  e.boundProperties.filterMap fun (_, p) => p.target?

theorem boundTargets_eq (e : Element) :
    e.boundTargets =
      e.placed.flatMap fun (_, node) => node.properties.filterMap Property.target? := by
  rw [boundTargets, boundProperties, List.filterMap_flatMap]
  refine List.flatMap_congr fun ⟨place, node⟩ _ => ?_
  rw [List.filterMap_map, List.filterMap_filter]
  refine List.filterMap_congr fun p _ => ?_
  change (if p.isDynamic then p.target? else none) = p.target?
  rw [Property.isDynamic]
  cases p.target? <;> rfl

/-- A bound property has a target. -/
theorem map_target?_boundProperties (e : Element) :
    (e.boundProperties.map fun (_, p) => p.target?) = e.boundTargets.map some := by
  rw [boundTargets, List.map_filterMap_some_eq_filter_map_isSome, eq_comm, List.filter_eq_self]
  intro target htarget
  obtain ⟨⟨place, p⟩, hmem, rfl⟩ := List.mem_map.mp htarget
  obtain ⟨⟨_, node⟩, -, hmem⟩ := List.mem_flatMap.mp hmem
  obtain ⟨own, hown, heq⟩ := List.mem_map.mp hmem
  obtain ⟨rfl, rfl⟩ := Prod.mk.inj heq
  exact (List.mem_filter.mp hown).2

theorem mem_map_snd_holes (e : Element) (target : Placeholder) :
    target ∈ e.holes.map Prod.snd ↔ ∃ found ∈ e.placed, found.2.target? = some target := by
  simp only [holes, Node.hole?, List.map_filterMap, List.mem_filterMap, Option.map_map]
  constructor
  · rintro ⟨found, hfound, htarget⟩
    exact ⟨found, hfound, by simpa using htarget⟩
  · rintro ⟨found, hfound, htarget⟩
    exact ⟨found, hfound, by simp [htarget]⟩

/-- A placeholder occurs in a property or between nodes. -/
theorem mem_targets_iff (e : Element) (target : Placeholder) :
    target ∈ e.toNode.targets ↔
      target ∈ e.boundTargets ∨ target ∈ e.insertionOrder.map Prod.snd := by
  rw [(e.perm_insertionOrder.map Prod.snd).mem_iff, mem_map_snd_holes, boundTargets_eq,
    e.toNode.targets_eq_flatMap [], List.mem_flatMap, List.mem_flatMap, ← exists_or]
  refine exists_congr fun found => ?_
  rw [List.mem_append, Option.mem_toList, and_or_left]
  rfl

end Element

end DomTemplate

import Mathlib
import DomTemplate.Proofs.SlotReferences

/-!
# Counting on the tree

What a block needs can be counted on the tree of its root, without an outline or a stream: a slot
for each node that has to be found again, an insertion for each placeholder that stands between
nodes, and an input for each placeholder that occurs at all, however often it does.

The nodes are listed in document order, each with what there is to know about where it stands.
-/

namespace DomTemplate

/-- A node of a tree and where it stands: the tags of the elements from the root down to it, its own
included if it is an element, and its left neighbour. -/
structure Site where
  path : List String
  left : Option Node
  node : Node

namespace Node

/-- The tag of a node, if it is an element. -/
def tag? : Node → Option String
  | element tag _ _ => some tag
  | _ => none

/-- Whether a node is an element that has children although its closing tag is not written. -/
def isOverfull : Node → Bool
  | element tag _ children => isVoid tag && !children.isEmpty
  | _ => false

mutual

/-- All nodes at and below a node, in document order. -/
def sites (path : List String) (left : Option Node) : Node → List Site
  | element tag properties children =>
    ⟨path ++ [tag], left, element tag properties children⟩ :: sitesAll (path ++ [tag]) none children
  | text value => [⟨path, left, text value⟩]
  | placeholder target => [⟨path, left, placeholder target⟩]

/-- The same for siblings, of which the first has the left neighbour `left`. -/
def sitesAll (path : List String) (left : Option Node) : List Node → List Site
  | [] => []
  | node :: rest => sites path left node ++ sitesAll path (some node) rest

end

end Node

namespace Site

/-- Whether the left neighbour is a placeholder. -/
def behindPlaceholder (site : Site) : Bool :=
  site.left.any Node.isPlaceholder

def isPlaceholder (site : Site) : Bool :=
  site.node.isPlaceholder

/-- Whether a node below the root has to be found again. -/
def needsSlot (site : Site) : Bool :=
  site.node.needsSlot site.behindPlaceholder

end Site

namespace Element

/-- All nodes of a root element, in document order and beginning with itself. -/
def sites (e : Element) : List Site :=
  e.toNode.sites [] none

/-- The nodes below a root element. -/
def sitesBelow (e : Element) : List Site :=
  Node.sitesAll [e.tag] none e.children

theorem sites_eq (e : Element) : e.sites = ⟨[e.tag], none, e.toNode⟩ :: e.sitesBelow := by
  rw [sites, toNode, Node.sites]
  rfl

/-- The number of different placeholders in a root element. -/
def placeholderCount (e : Element) : Nat :=
  e.toNode.targets.toFinset.card

/-- The number of slots a root element needs: one for itself and one for each node below it that has
to be found again. -/
def neededSlots (e : Element) : Nat :=
  1 + e.sitesBelow.countP Site.needsSlot

/-- The number of placeholders that stand between nodes of a root element, with repetitions. -/
def insertionCount (e : Element) : Nat :=
  e.sites.countP Site.isPlaceholder

end Element

/-! ## Paths -/

namespace Node

mutual

/-- The path to an element ends with its tag. -/
theorem getLast?_path_of_mem_sites {path : List String} {left : Option Node} {site : Site}
    {tag : String} (htag : site.node.tag? = some tag) :
    ∀ {node : Node}, site ∈ sites path left node → site.path.getLast? = some tag
  | element own properties children, h => by
      rw [sites, List.mem_cons] at h
      rcases h with rfl | hbelow
      · obtain rfl : own = tag := Option.some.inj htag
        simp
      · exact getLast?_path_of_mem_sitesAll htag hbelow
  | text value, h => by
      rw [sites, List.mem_singleton] at h
      simp [h, tag?] at htag
  | placeholder target, h => by
      rw [sites, List.mem_singleton] at h
      simp [h, tag?] at htag

theorem getLast?_path_of_mem_sitesAll {path : List String} {left : Option Node} {site : Site}
    {tag : String} (htag : site.node.tag? = some tag) :
    ∀ {nodes : List Node}, site ∈ sitesAll path left nodes → site.path.getLast? = some tag
  | [], h => by
      simp [sitesAll] at h
  | node :: rest, h => by
      rw [sitesAll, List.mem_append] at h
      rcases h with hown | hrest
      · exact getLast?_path_of_mem_sites htag hown
      · exact getLast?_path_of_mem_sitesAll htag hrest

end

/-! ## Slots -/

mutual

/-- The nodes that need a slot, counted where they stand. -/
theorem length_saved (place : List Nat) (path : List String) (left : Option Node) :
    ∀ node : Node, (saved place (left.any isPlaceholder) node).length =
      (sites path left node).countP Site.needsSlot
  | element tag properties children => by
      have hinner := length_savedAll place 0 (path ++ [tag]) none children
      simp only [Option.any_none] at hinner
      have hown : Site.needsSlot ⟨path ++ [tag], left, element tag properties children⟩ =
        (left.any isPlaceholder || patched properties children) := rfl
      rw [saved, sites, List.length_append, hinner, List.countP_cons, hown, Nat.add_comm]
      cases left.any isPlaceholder || patched properties children <;> rfl
  | text value => by
      have hown : Site.needsSlot ⟨path, left, text value⟩ = left.any isPlaceholder := rfl
      rw [saved, sites, List.countP_singleton, hown]
      cases left.any isPlaceholder <;> rfl
  | placeholder target => by
      simp [saved, sites, Site.needsSlot, needsSlot]

theorem length_savedAll (place : List Nat) (index : Nat) (path : List String)
    (left : Option Node) :
    ∀ nodes : List Node, (savedAll place index (left.any isPlaceholder) nodes).length =
      (sitesAll path left nodes).countP Site.needsSlot
  | [] => by
      simp [savedAll, sitesAll]
  | node :: rest => by
      have hrest := length_savedAll place (index + 1) path (some node) rest
      rw [Option.any_some] at hrest
      rw [savedAll, sitesAll, List.length_append, List.countP_append, hrest,
        length_saved (place ++ [index]) path left node]

end

end Node

/-- Numbering gives out as many slots as the tree of a root element shows. -/
theorem Element.slotCount_eq_neededSlots (e : Element) : e.slotCount = e.neededSlots := by
  have hsaved := Node.length_savedAll [] 0 [e.tag] none e.children
  simp only [Option.any_none] at hsaved
  rw [e.slotCount_eq, Element.saved, hsaved]
  rfl

/-! ## Insertions -/

theorem countMounts_append (ops more : List MountOp) :
    countMounts (ops ++ more) = countMounts ops + countMounts more :=
  List.countP_append

namespace Outline

theorem countMounts_selectNext (outlines : List Outline) :
    countMounts (selectNext outlines) = 0 := by
  cases outlines with
  | nil => rfl
  | cons neighbour rest =>
      rw [selectNext]
      cases neighbour.slot? <;> rfl

/-- Each placeholder among siblings is inserted once, if it has a number. -/
theorem countMounts_mountChildren {inputs : Registry Placeholder} {outlines : List Outline}
    (hinputs : ∀ target, placeholder target ∈ outlines → target ∈ inputs.entries) :
    countMounts (mountChildren inputs outlines) = outlines.countP isPlaceholder := by
  induction outlines with
  | nil => rfl
  | cons outline rest ih =>
      have hrest := ih fun target h => hinputs target (List.mem_cons_of_mem _ h)
      cases outline with
      | element tag properties marks following slot children =>
          simp [mountChildren, hrest, isPlaceholder]
      | text value following slot =>
          simp [mountChildren, hrest, isPlaceholder]
      | placeholder target =>
          obtain ⟨input, hinput⟩ := Registry.exists_index? (hinputs target List.mem_cons_self)
          simp only [mountChildren, hinput, countMounts_append, countMounts_selectNext, hrest,
            List.countP_cons]
          rfl

theorem countP_numberAll (behind : Bool) (next : Nat) (nodes : List Node) :
    (numberAll behind next (ofNodes nodes).1).1.countP isPlaceholder =
      nodes.countP Node.isPlaceholder := by
  induction nodes generalizing behind next with
  | nil => rfl
  | cons node rest ih =>
      rw [numberAll_cons, List.countP_cons, List.countP_cons, ih, isPlaceholder_number,
        isPlaceholder_ofNode]

theorem mem_of_placeholder_mem_numberAll {behind : Bool} {next : Nat} {nodes : List Node}
    {target : Placeholder}
    (h : placeholder target ∈ (numberAll behind next (ofNodes nodes).1).1) :
    .placeholder target ∈ nodes := by
  obtain ⟨k, hk⟩ := List.mem_iff_getElem?.mp h
  obtain ⟨node, free, following, hnode, hnumber⟩ := getElem?_numberAll hk
  have hshows := shows_number ((behind :: nodes.map Node.isPlaceholder).getD k false) free
    following node
  rw [← hnumber] at hshows
  cases hshows
  exact List.mem_of_getElem? hnode

/-- The insertions into one element are as many as the placeholders among its children. -/
theorem countMounts_ownMounts {inputs : Registry Placeholder} {tag : String}
    {properties : List Property} {following : Following} {slot : Option Nat} {next : Nat}
    {children : List Node}
    (hinputs : ∀ target, .placeholder target ∈ children → target ∈ inputs.entries) :
    countMounts (ownMounts inputs (element tag properties (marksOf properties children) following
      slot (numberAll false next (ofNodes children).1).1)) =
        children.countP Node.isPlaceholder := by
  have hinner : countMounts (mountChildren inputs (numberAll false next (ofNodes children).1).1) =
      children.countP Node.isPlaceholder := by
    rw [countMounts_mountChildren, countP_numberAll]
    exact fun target h => hinputs target (mem_of_placeholder_mem_numberAll h)
  have hselect (own : Option Nat) : countMounts (own.toList.map MountOp.setParent) = 0 := by
    cases own <;> rfl
  rw [ownMounts]
  split
  · rw [countMounts_append, hselect, Nat.zero_add]
    exact hinner
  · rename_i hnone
    -- Without a placeholder there is nothing to count on either side.
    exact (Nat.eq_zero_of_not_pos hnone).symm

mutual

/-- Each placeholder below a node is inserted once.  The node itself is inserted by its parent, if
it is a placeholder. -/
theorem countMounts_mount {inputs : Registry Placeholder} (behind : Bool) (next : Nat)
    (following : Following) (path : List String) (left : Option Node) :
    ∀ {node : Node}, (∀ target ∈ node.targets, target ∈ inputs.entries) →
      countMounts (mount inputs (number behind next (ofNode following node)).1) +
          (if node.isPlaceholder then 1 else 0) =
        (node.sites path left).countP Site.isPlaceholder
  | .element tag properties children, hinputs => by
      have hchildren : ∀ target ∈ Node.targetsAll children, target ∈ inputs.entries :=
        fun target h => hinputs target (List.mem_append_right _ h)
      have hinner := countMounts_mountAll false
        (if behind || Node.patched properties children then next + 1 else next)
        (path ++ [tag]) none hchildren
      have hown : ∀ target, .placeholder target ∈ children → target ∈ inputs.entries :=
        fun target h => hchildren target (Node.mem_targetsAll.mpr ⟨_, h, List.mem_cons_self⟩)
      rw [number_element, mount_eq, countMounts_append, countMounts_ownMounts hown, Node.sites,
        List.countP_cons, ← hinner, Nat.add_comm (countMounts _)]
      rfl
  | .text value, _ => by
      rw [number_text]
      rfl
  | .placeholder target, _ => rfl

theorem countMounts_mountAll {inputs : Registry Placeholder} (behind : Bool) (next : Nat)
    (path : List String) (left : Option Node) :
    ∀ {nodes : List Node}, (∀ target ∈ Node.targetsAll nodes, target ∈ inputs.entries) →
      countMounts (mountAll inputs (numberAll behind next (ofNodes nodes).1).1) +
          nodes.countP Node.isPlaceholder =
        (Node.sitesAll path left nodes).countP Site.isPlaceholder
  | [], _ => rfl
  | node :: rest, hinputs => by
      rw [Node.targetsAll, List.forall_mem_append] at hinputs
      have hown := countMounts_mount behind next (ofNodes rest).2 path left hinputs.1
      have hrest := countMounts_mountAll node.isPlaceholder
        (number behind next (ofNode (ofNodes rest).2 node)).2 path (some node) hinputs.2
      rw [numberAll_cons, mountAll, countMounts_append, List.countP_cons, Node.sitesAll,
        List.countP_append, ← hown, ← hrest]
      omega

end

end Outline

namespace Element

/-- A root element has an insertion for each placeholder below it. -/
theorem countMounts_mountStream (e : Element) :
    countMounts (e.outline.mountStream e.toNode.placeholders) = e.insertionCount := by
  have htargets : ∀ target ∈ Node.targetsAll e.children,
      target ∈ e.toNode.placeholders.entries :=
    fun target h => (e.toNode.mem_placeholders target).mpr (List.mem_append_right _ h)
  have hown : ∀ target, .placeholder target ∈ e.children →
      target ∈ e.toNode.placeholders.entries :=
    fun target h => htargets target (Node.mem_targetsAll.mpr ⟨_, h, List.mem_cons_self⟩)
  have hbelow := Outline.countMounts_mountAll false 1 [e.tag] none htargets
  rw [outline_eq, Outline.mountStream, Outline.mount_eq, countMounts_append,
    Outline.countMounts_ownMounts hown, insertionCount, sites_eq, List.countP_cons, sitesBelow,
    ← hbelow]
  exact Nat.add_comm _ _

end Element

/-! ## Inputs -/

/-- A root element has an input for each placeholder that occurs in it. -/
theorem Element.size_placeholders (e : Element) :
    e.toNode.placeholders.size = e.placeholderCount := by
  have hentries : e.toNode.placeholders.entries.toFinset = e.toNode.targets.toFinset := by
    ext target
    rw [List.mem_toFinset, List.mem_toFinset, e.toNode.mem_placeholders]
  rw [placeholderCount, ← hentries, List.toFinset_card_of_nodup e.toNode.nodup_placeholders]
  rfl

end DomTemplate

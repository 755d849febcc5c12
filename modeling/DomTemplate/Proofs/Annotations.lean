import Mathlib
import DomTemplate.Proofs.EarlyExit
import DomTemplate.Proofs.Occurrences
import DomTemplate.Proofs.SlotReferences

/-!
# What a scratch tree notes

A scratch tree is built from right to left: what is noted at a node comes from below it and from its
right neighbours, which have been seen before.  None of it needs the order in which it was found.  A
node is dynamic if a placeholder occurs at or below it, and what follows a node among its siblings
can be read off the siblings behind it.  The byte that a node gets from its siblings never has the
flag for its own content, so the two do not mix.  Where the tree says that the walk may end, no node
further to the right gets a slot, and none below such a node.
-/

namespace DomTemplate

/-! ## Dynamic content -/

namespace Node

/-- Whether a placeholder occurs at a node itself: the node is one, or has a property bound to
one. -/
def isLive : Node → Bool
  | element _ properties _ => properties.any Property.isDynamic
  | text _ => false
  | placeholder _ => true

/-- A placeholder occurs at a node or below it. -/
def HasDynamic (node : Node) : Prop :=
  ∃ place found, node.at? place = some found ∧ found.isLive = true

theorem hasDynamic_iff (node : Node) :
    node.HasDynamic ↔ node.isLive = true ∨ ∃ child ∈ node.children, child.HasDynamic := by
  constructor
  · rintro ⟨place, found, hfound, hlive⟩
    cases place with
    | nil =>
        obtain rfl : node = found := Option.some.inj hfound
        exact .inl hlive
    | cons index below =>
        obtain ⟨child, hchild, hbelow⟩ := Option.bind_eq_some_iff.mp hfound
        exact .inr ⟨child, List.mem_of_getElem? hchild, below, found, hbelow, hlive⟩
  · rintro (hlive | ⟨child, hchild, below, found, hbelow, hlive⟩)
    · exact ⟨[], node, rfl, hlive⟩
    · obtain ⟨index, hindex⟩ := List.mem_iff_getElem?.mp hchild
      exact ⟨index :: below, found, by rw [at?, hindex]; exact hbelow, hlive⟩

end Node

namespace Outline

mutual

/-- An outline is marked as dynamic if and only if a placeholder occurs at its node or below. -/
theorem isDynamic_ofNode_iff (following : Following) :
    ∀ node : Node, (ofNode following node).isDynamic = true ↔ node.HasDynamic
  | .element tag properties children => by
      have hbound : (0 < properties.countP Property.isDynamic) ↔
          properties.any Property.isDynamic = true := by
        rw [List.countP_pos_iff, List.any_eq_true]
      rw [Node.hasDynamic_iff, ofNode_element, isDynamic, marksOf, Bool.or_eq_true,
        decide_eq_true_iff, hbound, dynamic_ofNodes_iff children]
      rfl
  | .text value => by
      rw [Node.hasDynamic_iff]
      simp [ofNode, isDynamic, Node.isLive, Node.children]
  | .placeholder target => by
      rw [Node.hasDynamic_iff]
      simp [ofNode, isDynamic, Node.isLive]

theorem dynamic_ofNodes_iff :
    ∀ nodes : List Node, (ofNodes nodes).2.dynamic = true ↔ ∃ node ∈ nodes, node.HasDynamic
  | [] => by
      simp [ofNodes, Following.nothing]
  | node :: rest => by
      rw [ofNodes_cons, extend, Bool.or_eq_true, dynamic_ofNodes_iff rest,
        isDynamic_ofNode_iff _ node, List.exists_mem_cons_iff, or_comm]

end

theorem solid_ofNodes_iff (nodes : List Node) :
    (ofNodes nodes).2.solid = true ↔ ∃ node ∈ nodes, node.isPlaceholder = false := by
  induction nodes with
  | nil => simp [ofNodes, Following.nothing]
  | cons node rest ih =>
      rw [ofNodes_cons, extend, Bool.or_eq_true, ih, isPlaceholder_ofNode, Bool.not_eq_true',
        List.exists_mem_cons_iff, or_comm]

end Outline

/-! ## The scratch tree of each node -/

namespace Scratch

mutual

/-- The template tree that a scratch tree is about. -/
def source : Scratch → Node
  | element tag properties _ _ _ _ children => .element tag properties (sourceAll children)
  | text value _ _ => .text value
  | placeholder target _ => .placeholder target

def sourceAll : List Scratch → List Node
  | [] => []
  | node :: rest => source node :: sourceAll rest

end

mutual

theorem source_ofNode (flags : UInt8) : ∀ node : Node, (ofNode flags node).source = node
  | .element tag properties children => by
      rw [ofNode, source, sourceAll_scanChildren flags children]
  | .text value => rfl
  | .placeholder target => rfl

theorem sourceAll_scanChildren (flags : UInt8) :
    ∀ nodes : List Node, sourceAll (scanChildren flags nodes).children = nodes
  | [] => rfl
  | .element tag properties children :: rest => by
      rw [scanChildren, sourceAll, source_ofNode _ (.element tag properties children),
        sourceAll_scanChildren flags rest]
  | .text value :: rest => by
      rw [scanChildren, sourceAll, source_ofNode _ (.text value), sourceAll_scanChildren flags rest]
  | .placeholder target :: rest => by
      rw [scanChildren, sourceAll, source_ofNode _ (.placeholder target),
        sourceAll_scanChildren flags rest]

end

/-- The flags that a node gets from the scan of its right neighbours.  A placeholder counts itself
among what is dynamic. -/
def inherited (siblings : UInt8) (node : Node) : UInt8 :=
  Flag.nextDynamic.setIf node.isPlaceholder siblings

theorem isIn_inherited (siblings : UInt8) (node : Node) :
    Flag.dynamic.isIn (inherited siblings node) = Flag.dynamic.isIn siblings := by
  simp [inherited, Flag.isIn_setIf]

/-- A child is annotated with what the siblings behind it amount to. -/
theorem getElem?_scanChildren (flags : UInt8) (nodes : List Node) (index : Nat) :
    (scanChildren flags nodes).children[index]? = nodes[index]?.map fun node =>
      ofNode (inherited (scanChildren flags (nodes.drop (index + 1))).siblings node) node := by
  induction nodes generalizing index with
  | nil => rfl
  | cons node rest ih =>
      cases index with
      | zero => cases node <;> simp [scanChildren, inherited, Flag.setIf, Node.isPlaceholder]
      | succ index => cases node <;> simpa [scanChildren] using ih index

theorem children_ofNode (flags : UInt8) (node : Node) :
    (ofNode flags node).children = (scanChildren flags node.children).children := by
  cases node with
  | element tag properties children => rw [ofNode]; rfl
  | text value => rfl
  | placeholder target => rfl

/-- A byte from the siblings never has the flag for the content of a node itself, all the way down
a tree that words can count. -/
theorem exists_at?_ofNode {flags : UInt8} (hflags : Flag.dynamic.isIn flags = false)
    {root node : Node} (hfits : root.FitsWords) {place : List Nat}
    (h : root.at? place = some node) :
    ∃ inner, Flag.dynamic.isIn inner = false ∧ node.FitsWords ∧
      (ofNode flags root).at? place = some (ofNode inner node) := by
  induction place generalizing flags root with
  | nil =>
      obtain rfl : root = node := Option.some.inj h
      exact ⟨flags, hflags, hfits, rfl⟩
  | cons index below ih =>
      obtain ⟨child, hchild, hbelow⟩ := Option.bind_eq_some_iff.mp h
      obtain ⟨hown, hrest⟩ := hfits.allFitWords_children.getElem? hchild
      have hsiblings := (scanChildren_reads flags hrest).apart
      rw [← isIn_inherited _ child] at hsiblings
      obtain ⟨inner, hinner, hnode, hat⟩ := ih hsiblings hown hbelow
      refine ⟨inner, hinner, hnode, ?_⟩
      rw [at?, children_ofNode, getElem?_scanChildren, hchild]
      exact hat

theorem at?_append (node : Scratch) (place : List Nat) (index : Nat) :
    node.at? (place ++ [index]) = (node.at? place).bind fun found => found.children[index]? := by
  induction place generalizing node with
  | nil => exact Option.bind_fun_some _
  | cons first rest ih =>
      rw [List.cons_append, at?, at?, Option.bind_assoc]
      exact congrArg _ (funext ih)

/-- What a scratch tree tells about its own node. -/
structure Describes (scratch : Scratch) (node : Node) : Prop where
  source_eq : scratch.source = node
  isDynamic_iff : scratch.isDynamic = true ↔ node.HasDynamic
  bound_eq : scratch.bound.toNat = node.properties.countP Property.isDynamic
  mounts_eq : scratch.mounts.toNat = node.children.countP Node.isPlaceholder

theorem isDynamic_ofNode_iff {flags : UInt8} (hflags : Flag.dynamic.isIn flags = false)
    {node : Node} (hfits : node.FitsWords) :
    (ofNode flags node).isDynamic = true ↔ node.HasDynamic := by
  rw [← Outline.isDynamic_ofNode_iff (following flags) node, ← read_ofNode hflags hfits]
  cases node with
  | element tag properties children =>
      rw [ofNode]
      rfl
  | text value =>
      rw [ofNode, isDynamic, read, Outline.isDynamic]
      exact iff_of_eq (congrArg (· = true) hflags)
  | placeholder target =>
      rw [ofNode, isDynamic, Scratch.flags, Flag.isIn_or_mask]
      simp [read, Outline.isDynamic]

theorem describes_ofNode {flags : UInt8} (hflags : Flag.dynamic.isIn flags = false) {node : Node}
    (hfits : node.FitsWords) : (ofNode flags node).Describes node where
  source_eq := source_ofNode flags node
  isDynamic_iff := isDynamic_ofNode_iff hflags hfits
  bound_eq := by
    cases node with
    | element tag properties children =>
        rw [ofNode]
        exact toNat_ofNat_of_lt (Nat.lt_of_le_of_lt List.countP_le_length hfits.children.2)
    | text value => rfl
    | placeholder target => rfl
  mounts_eq := by
    cases node with
    | element tag properties children =>
        rw [ofNode]
        exact (scanChildren_reads flags hfits.children.1).mounts
    | text value => rfl
    | placeholder target => rfl

/-- A node of the page keeps what it was told about its siblings. -/
theorem following_ofNode (flags : UInt8) {node : Node} (hfits : node.FitsWords)
    (hsolid : node.isPlaceholder = false) :
    following (ofNode flags node).flags = following flags := by
  cases node with
  | element tag properties children =>
      rw [ofNode, Scratch.flags, following_setIf_dynamic]
      exact (scanChildren_reads flags hfits.children.1).kept
  | text value => rfl
  | placeholder target => exact absurd hsolid (by simp [Node.isPlaceholder])

/-- A node of the page below a root notes what the siblings behind it amount to. -/
theorem exists_child_ofNode {root parent node : Node} (hfits : root.FitsWords) {place : List Nat}
    {index : Nat} (hparent : root.at? place = some parent)
    (hnode : parent.children[index]? = some node) (hsolid : node.isPlaceholder = false) :
    ∃ scratch, (ofNode 0 root).at? (place ++ [index]) = some scratch ∧
      following scratch.flags = (Outline.ofNodes (parent.children.drop (index + 1))).2 := by
  obtain ⟨inner, -, hbelow, hat⟩ := exists_at?_ofNode (Flag.isIn_zero .dynamic) hfits hparent
  obtain ⟨hown, hrest⟩ := hbelow.allFitWords_children.getElem? hnode
  refine ⟨_, ?_, (following_ofNode _ hown hsolid).trans (scanChildren_reads inner hrest).siblings⟩
  rw [at?_append, hat, Option.bind_some, children_ofNode, getElem?_scanChildren, hnode,
    Option.map_some, inherited, hsolid]
  rfl

end Scratch

/-! ## Behind the end of a walk -/

namespace Outline

/-- The siblings behind one are numbered on their own, from the next free slot on. -/
theorem drop_numberAll (behind : Bool) (next : Nat) {nodes : List Node} {index : Nat} {node : Node}
    (h : nodes[index]? = some node) :
    ∃ free, (numberAll behind next (ofNodes nodes).1).1.drop (index + 1) =
      (numberAll node.isPlaceholder free (ofNodes (nodes.drop (index + 1))).1).1 := by
  induction nodes generalizing behind next index with
  | nil => exact absurd h (by simp)
  | cons first rest ih =>
      rw [numberAll_cons]
      cases index with
      | zero =>
          obtain rfl : first = node := Option.some.inj h
          exact ⟨_, rfl⟩
      -- What stands in front is seen only in the next free slot.
      | succ index => exact ih _ _ h

/-- Where the walk may end, nothing further to the right gets a slot. -/
theorem slotAt?_of_ends {nodes : List Node} {index : Nat} {node : Node} (next : Nat)
    (hnode : nodes[index]? = some node) (hsolid : node.isPlaceholder = false)
    (hends : (ofNodes (nodes.drop (index + 1))).2.ends = true) {later : Nat} (hlater : index < later)
    (below : List Nat) :
    ((numberAll false next (ofNodes nodes).1).1[later]?.bind fun outline =>
      outline.slotAt? below) = none := by
  obtain ⟨free, hdrop⟩ := drop_numberAll false next hnode
  obtain ⟨k, rfl⟩ : ∃ k, later = index + 1 + k := ⟨later - (index + 1), by omega⟩
  -- The node stands on the page, so the sibling behind it is not right behind a placeholder.
  rw [hsolid] at hdrop
  have hsaved : Node.savedAll [] (index + 1) false (nodes.drop (index + 1)) = [] :=
    (Node.quiet_of_ends (ν := Unit) [] (index + 1) false hends).2
  have hslotted := (slottedAll_numberAll [] (index + 1) false free (nodes.drop (index + 1))).1
  rw [hsaved, List.zipIdx_nil] at hslotted
  rw [← List.getElem?_drop, hdrop, Option.eq_none_iff_forall_ne_some]
  intro slot hslot
  have hmem := mem_slottedAll_of_slotAt? [] (index + 1) hslot
  rw [hslotted] at hmem
  exact List.not_mem_nil hmem

end Outline

namespace Element

theorem slotAt?_outline_of_ends (e : Element) {place : List Nat} {parent node : Node} {index : Nat}
    (hparent : e.toNode.at? place = some parent) (hnode : parent.children[index]? = some node)
    (hsolid : node.isPlaceholder = false)
    (hends : (Outline.ofNodes (parent.children.drop (index + 1))).2.ends = true) {later : Nat}
    (hlater : index < later) (below : List Nat) :
    e.outline.slotAt? (place ++ later :: below) = none := by
  rw [Outline.slotAt?, Outline.at?_append_below, Option.bind_assoc]
  cases hfound : e.outline.at? place with
  | none => rfl
  | some found =>
      obtain ⟨other, hother, hshows⟩ := e.shows_outline.at? hfound
      obtain rfl : parent = other := Option.some.inj (hparent.symm.trans hother)
      obtain ⟨next, hchildren⟩ := hshows.children_eq
      have hnone := Outline.slotAt?_of_ends next hnode hsolid hends hlater below
      rw [← hchildren] at hnone
      rw [Option.bind_some, Outline.at?, Option.bind_assoc]
      exact hnone

end Element

/-- The scratch tree of a root that words can count notes at each node what stands there and, at
each node of the page, what follows it among its siblings.  The siblings behind a node at which the
walk may end get no slots, and neither does anything below them. -/
theorem scratch_notes_what_stands_there (e : Element) (hfits : e.toNode.FitsWords) :
    (∀ place node, e.toNode.at? place = some node →
      ∃ scratch, (Scratch.ofNode 0 e.toNode).at? place = some scratch ∧ scratch.Describes node) ∧
    ∀ place parent index node, e.toNode.at? place = some parent →
      parent.children[index]? = some node → node.isPlaceholder = false →
      ∃ scratch, (Scratch.ofNode 0 e.toNode).at? (place ++ [index]) = some scratch ∧
        (Flag.nextDynamic.isIn scratch.flags = true ↔
          ∃ sibling ∈ parent.children.drop (index + 1), sibling.HasDynamic) ∧
        (Flag.nextSolid.isIn scratch.flags = true ↔
          ∃ sibling ∈ parent.children.drop (index + 1), sibling.isPlaceholder = false) ∧
        (scratch.isLast = true → ∀ later below, index < later →
          e.scratch.slotAt? (place ++ later :: below) = none) := by
  refine ⟨fun place node hnode => ?_, fun place parent index node hparent hnode hsolid => ?_⟩
  · obtain ⟨inner, hinner, hbelow, hat⟩ :=
      Scratch.exists_at?_ofNode (Flag.isIn_zero .dynamic) hfits hnode
    exact ⟨_, hat, Scratch.describes_ofNode hinner hbelow⟩
  · obtain ⟨scratch, hat, hfollowing⟩ :=
      Scratch.exists_child_ofNode hfits hparent hnode hsolid
    refine ⟨scratch, hat, ?_, ?_, fun hlast later below hlater => ?_⟩
    · rw [← Outline.dynamic_ofNodes_iff, ← hfollowing]
      rfl
    · rw [← Outline.solid_ofNodes_iff, ← hfollowing]
      rfl
    · rw [← Scratch.ends_following, hfollowing] at hlast
      rw [Element.slotAt?_scratch hfits]
      exact e.slotAt?_outline_of_ends hparent hnode hsolid hlast hlater below

theorem scratch_notes_padded :
    (∃ scratch, (Scratch.ofNode 0 Element.padded.toNode).at? [0] = some scratch ∧
      scratch.isDynamic = true ∧ scratch.bound.toNat = 0 ∧ scratch.mounts.toNat = 1 ∧
      scratch.flags = 5) ∧
    Element.padded.scratch.slotAt? [0, 1] = some 2 ∧
    ∀ below, Element.padded.scratch.slotAt? (1 :: below) = none := by
  obtain ⟨hnodes, hsiblings⟩ :=
    scratch_notes_what_stands_there Element.padded ⟨by decide, by decide⟩
  obtain ⟨scratch, hat, hdescribes⟩ := hnodes [0] _ rfl
  obtain ⟨_, hsame, -, -, hslots⟩ := hsiblings [] _ 0 _ rfl rfl rfl
  obtain rfl := Option.some.inj (hat.symm.trans hsame)
  have hflags : scratch.flags = 5 := by
    obtain rfl := Option.some.inj hat
    decide
  have hlast : scratch.isLast = true := by
    rw [Scratch.isLast, hflags]
    decide
  have hdynamic : scratch.isDynamic = true :=
    hdescribes.isDynamic_iff.mpr ⟨[0], .placeholder ⟨1⟩, rfl, rfl⟩
  exact ⟨⟨scratch, hat, hdynamic, hdescribes.bound_eq, hdescribes.mounts_eq, hflags⟩, by decide,
    fun below => hslots hlast 1 below Nat.zero_lt_one⟩

/-- An element with 2 ^ 32 directives counts none and is not marked as dynamic. -/
theorem notes_of_heavy_lost :
    (Scratch.ofNode 0 (Element.heavy (2 ^ 32)).toNode).bound = 0 ∧
      (Scratch.ofNode 0 (Element.heavy (2 ^ 32)).toNode).isDynamic = false ∧
      (Element.heavy (2 ^ 32)).toNode.HasDynamic ∧
      (Element.heavy (2 ^ 32)).toNode.properties.countP Property.isDynamic = 2 ^ 32 := by
  have hheavy : ∀ count, 0 < count → UInt32.ofNat count = 0 →
      (Scratch.ofNode 0 (Element.heavy count).toNode).bound = 0 ∧
        (Scratch.ofNode 0 (Element.heavy count).toNode).isDynamic = false ∧
        (Element.heavy count).toNode.HasDynamic ∧
        (Element.heavy count).toNode.properties.countP Property.isDynamic = count := by
    intro count hpos hwrap
    have hlive : (Element.heavy count).toNode.isLive = true :=
      List.any_eq_true.mpr
        ⟨.action, List.mem_replicate.mpr ⟨Nat.ne_of_gt hpos, rfl⟩, rfl⟩
    rw [Element.ofNode_heavy hwrap]
    exact ⟨rfl, Flag.isIn_zero .dynamic, ⟨[], _, rfl, hlive⟩, Element.countP_heavy count⟩
  exact hheavy _ (by decide) (by decide)

end DomTemplate

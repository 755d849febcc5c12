import Mathlib
import DomTemplate.Proofs.Bindings

/-!
# The numbers of the inputs

The placeholders of a root are numbered without gaps by their first occurrence.  The tree is gone
through three times in three orders: once to give the numbers, once for the bindings and once for
the insertions.  All three meet the same occurrences, so every bound property and every placeholder
between nodes has one operation with its own number, and every number is used.
-/

namespace DomTemplate

/-- The input that an operation names. -/
def BindOp.input? : BindOp → Option Nat
  | setNode _ => none
  | common _ input => some input
  | keyed _ _ input => some input
  | directive input => some input

/-- The input that an operation names. -/
def MountOp.input? : MountOp → Option Nat
  | child input => some input
  | setNext _ => none
  | setParent _ => none

/-! ## Bindings -/

theorem Property.input?_operation (p : Property) (key input : Nat) :
    (p.operation key input).input? = some input := by
  rw [operation_eq]
  cases Target.of p.kind p.key <;> rfl

theorem Element.filterMap_input?_selection (e : Element) (place : List Nat) :
    (e.selection place).filterMap BindOp.input? = [] := by
  rw [selection]
  split <;> rfl

/-- The bindings of a root element name the numbers of the placeholders that its properties are
bound to. -/
theorem Element.inputs_bindStream {e : Element} (hfits : e.toNode.FitsWords) :
    (e.outline.bindStream e.toNode.placeholders).1.filterMap BindOp.input? =
      e.boundTargets.map e.toNode.placeholders.entries.idxOf := by
  rw [bindStream_eq hfits, boundOps, e.boundTargets_eq, List.filterMap_flatMap, List.map_flatMap]
  refine List.flatMap_congr fun found _ => ?_
  obtain ⟨place, node⟩ := found
  have hops (keys : List String) (inputs : List Placeholder) :
      (node.properties.filterMap (Property.bindOp? keys inputs)).filterMap BindOp.input? =
        (node.properties.filterMap Property.target?).map inputs.idxOf := by
    rw [List.filterMap_filterMap, List.map_filterMap]
    refine List.filterMap_congr fun p _ => ?_
    rw [Property.bindOp?]
    cases p.target? <;> simp [p.input?_operation]
  by_cases hdynamic : node.properties.any Property.isDynamic = true
  · simp only [if_pos hdynamic]
    rw [List.filterMap_append, filterMap_input?_selection, List.nil_append, hops]
  · have hnone : node.properties.filterMap Property.target? = [] := by
      rw [List.filterMap_eq_nil_iff]
      intro p hp
      simpa [Property.isDynamic] using
        List.any_eq_false.mp (Bool.eq_false_iff.mpr hdynamic) p hp
    simp only [if_neg hdynamic, hnone]
    rfl

/-! ## Insertions -/

namespace Outline

theorem filterMap_input?_selectNext (outlines : List Outline) :
    (selectNext outlines).filterMap MountOp.input? = [] := by
  cases outlines with
  | nil => rfl
  | cons neighbour rest =>
      rw [selectNext]
      cases neighbour.slot? <;> rfl

/-- Siblings are inserted from right to left. -/
theorem inputs_mountChildren (inputs : Registry Placeholder) (outlines : List Outline) :
    (mountChildren inputs outlines).filterMap MountOp.input? =
      ((sourceAll outlines).filterMap fun node => node.target?.bind inputs.index?).reverse := by
  induction outlines with
  | nil => rfl
  | cons outline rest ih =>
      cases outline with
      | element tag properties marks following slot children => exact ih
      | text value following slot => exact ih
      | placeholder target =>
          rw [mountChildren]
          cases hinput : inputs.index? target with
          | none => simp [ih, sourceAll, source, Node.target?, hinput]
          | some input =>
              simp [ih, sourceAll, source, Node.target?, hinput, filterMap_input?_selectNext,
                MountOp.input?]

end Outline

namespace Node

theorem filterMap_ownHoles (inputs : Registry Placeholder) (place : List Nat) (index : Nat)
    (nodes : List Node) :
    (ownHoles place index nodes).filterMap (fun hole => inputs.index? hole.2) =
      nodes.filterMap fun node => node.target?.bind inputs.index? := by
  induction nodes generalizing index with
  | nil => rfl
  | cons node rest ih =>
      rw [ownHoles, List.filterMap_append, ih, List.filterMap_cons, hole?]
      cases node.target? with
      | none => rfl
      | some target => cases hinput : inputs.index? target <;> simp [hinput]

end Node

namespace Outline

/-- The insertions into one element are those of the placeholders among its children. -/
theorem inputs_ownMounts (inputs : Registry Placeholder) (place : List Nat) {tag : String}
    {properties : List Property} {following : Following} {slot : Option Nat} {next : Nat}
    {nodes : List Node} :
    (ownMounts inputs (element tag properties (marksOf properties nodes) following slot
      (numberAll false next (ofNodes nodes).1).1)).filterMap MountOp.input? =
      (Node.ownHoles place 0 nodes).reverse.filterMap fun hole => inputs.index? hole.2 := by
  have hselect (own : Option Nat) :
      (own.toList.map MountOp.setParent).filterMap MountOp.input? = [] := by
    cases own <;> rfl
  rw [List.filterMap_reverse, Node.filterMap_ownHoles, ownMounts]
  split
  · rw [List.filterMap_append, hselect, List.nil_append, children, inputs_mountChildren,
      sourceAll_numberAll]
  · rename_i hnone
    -- An element is passed over only if no placeholder is among its children.
    have hsolid : nodes.countP Node.isPlaceholder = 0 := Nat.eq_zero_of_not_pos hnone
    have hskipped : (nodes.filterMap fun node => node.target?.bind inputs.index?) = [] := by
      rw [List.filterMap_eq_nil_iff]
      intro node hnode
      have hkind := List.countP_eq_zero.mp hsolid node hnode
      cases node <;> simp_all [Node.target?, Node.isPlaceholder]
    rw [hskipped]
    rfl

mutual

/-- The insertions into a node and into what stands below it are in the order of insertion. -/
theorem inputs_mount (inputs : Registry Placeholder) (place : List Nat) (behind : Bool)
    (next : Nat) (following : Following) :
    ∀ node : Node,
      (mount inputs (number behind next (ofNode following node)).1).filterMap MountOp.input? =
        (node.insertionOrder place).filterMap fun hole => inputs.index? hole.2
  | .element tag properties nodes => by
      rw [number_element, mount_eq, List.filterMap_append, inputs_ownMounts inputs place,
        Node.insertionOrder, List.filterMap_append]
      exact congrArg _ (inputs_mountAll inputs place 0 false _ nodes)
  | .text value => by
      rw [number_text]
      rfl
  | .placeholder target => rfl

theorem inputs_mountAll (inputs : Registry Placeholder) (place : List Nat) (index : Nat)
    (behind : Bool) (next : Nat) :
    ∀ nodes : List Node,
      (mountAll inputs (numberAll behind next (ofNodes nodes).1).1).filterMap MountOp.input? =
        (Node.insertionOrderAll place index nodes).filterMap fun hole => inputs.index? hole.2
  | [] => rfl
  | node :: rest => by
      rw [numberAll_cons, mountAll, List.filterMap_append, Node.insertionOrderAll,
        List.filterMap_append, inputs_mount inputs (place ++ [index]),
        inputs_mountAll inputs place (index + 1)]

end

end Outline

namespace Element

theorem mem_placeholders_of_mem_insertionOrder (e : Element) {hole : List Nat × Placeholder}
    (h : hole ∈ e.insertionOrder) : hole.2 ∈ e.toNode.placeholders.entries := by
  rw [e.toNode.mem_placeholders, e.mem_targets_iff]
  exact .inr (List.mem_map_of_mem h)

/-- The insertions of a root element name the numbers of its placeholders in the order of
insertion. -/
theorem inputs_mountStream (e : Element) :
    (e.outline.mountStream e.toNode.placeholders).filterMap MountOp.input? =
      (e.insertionOrder.map Prod.snd).map e.toNode.placeholders.entries.idxOf := by
  have hstream : (e.outline.mountStream e.toNode.placeholders).filterMap MountOp.input? =
      e.insertionOrder.filterMap fun hole => e.toNode.placeholders.index? hole.2 := by
    -- The root is no numbered node itself, so it is taken apart before the lemma on siblings.
    rw [outline_eq, Outline.mountStream, Outline.mount_eq, List.filterMap_append,
      Outline.inputs_ownMounts e.toNode.placeholders [], insertionOrder, toNode,
      Node.insertionOrder, List.filterMap_append]
    exact congrArg _ (Outline.inputs_mountAll _ [] 0 false 1 e.children)
  rw [hstream, List.map_map, ← List.filterMap_eq_map]
  refine List.filterMap_congr fun hole hmem => ?_
  obtain ⟨input, hinput⟩ :=
    Registry.exists_index? (e.mem_placeholders_of_mem_insertionOrder hmem)
  rw [hinput, Function.comp_apply, Function.comp_apply, Registry.idxOf_of_index? hinput]

/-- A placeholder that occurs is found under its number. -/
theorem map_getElem?_map_idxOf (e : Element) {targets : List Placeholder}
    (h : ∀ target ∈ targets, target ∈ e.toNode.targets) :
    (targets.map e.toNode.placeholders.entries.idxOf).map (e.toNode.placeholders.entries[·]?) =
      targets.map some := by
  rw [List.map_map]
  refine List.map_congr_left fun target htarget => ?_
  exact List.getElem?_idxOf ((e.toNode.mem_placeholders target).mpr (h target htarget))

/-- Every number is that of a placeholder which occurs in a property or between nodes. -/
theorem lt_length_inputs_iff (e : Element) (input : Nat) :
    input < e.toNode.placeholders.entries.length ↔
      input ∈ e.boundTargets.map e.toNode.placeholders.entries.idxOf ∨
        input ∈ (e.insertionOrder.map Prod.snd).map e.toNode.placeholders.entries.idxOf := by
  rw [← List.mem_append, ← List.map_append, List.mem_map]
  constructor
  · intro hlt
    have htarget := (e.toNode.mem_placeholders _).mp (List.getElem_mem hlt)
    exact ⟨_, List.mem_append.mpr ((e.mem_targets_iff _).mp htarget),
      e.toNode.nodup_placeholders.idxOf_getElem input hlt⟩
  · rintro ⟨target, htarget, rfl⟩
    rw [List.mem_append, ← e.mem_targets_iff, ← e.toNode.mem_placeholders] at htarget
    exact List.idxOf_lt_length_of_mem htarget

end Element

/-- The inputs that the streams of a block name. -/
def Block.usedInputs (block : Block) : List Nat :=
  block.binds.filterMap BindOp.input? ++ block.mounts.filterMap MountOp.input?

/-- The placeholders of a root are numbered by their first occurrence, and nothing else has a
number.  In a block each number is used, and each bound property and each placeholder between nodes
has one operation, which names it: the bindings in document order, and the insertions in theirs.
The numbers are exact words in any case, and the block is complete if words can count the tree. -/
theorem inputs_dense (e : Element) :
    e.toNode.placeholders.entries = e.toNode.targets.eraseDups ∧
      (∀ target input, (e.toNode.placeholders.word? target).map UInt32.toNat = some input ↔
        e.toNode.targets.eraseDups[input]? = some target) ∧
      (∀ target, (e.toNode.placeholders.word? target).isSome = true ↔
        target ∈ e.toNode.targets) ∧
      (e.toNode.FitsWords → ∀ dialect block, e.compile dialect = .ok block →
        block.inputs = e.toNode.targets.eraseDups ∧
        (∀ input, input ∈ block.usedInputs ↔ input < block.inputs.length) ∧
        (block.binds.filterMap BindOp.input?).map (block.inputs[·]?) =
          e.boundProperties.map (fun (_, p) => p.target?) ∧
        (block.mounts.filterMap MountOp.input?).map (block.inputs[·]?) =
          e.insertionOrder.map (fun (_, target) => some target) ∧
        e.insertionOrder.Perm e.holes) := by
  refine ⟨e.toNode.entries_placeholders, ?_, ?_, ?_⟩
  · intro target input
    rw [Registry.word?_eq e.toNode.size_placeholders_le,
      Registry.index?_eq_some_iff e.toNode.nodup_placeholders, e.toNode.entries_placeholders]
  · intro target
    rw [Registry.word?, Option.isSome_map, Registry.index?, List.isSome_idxOf?,
      e.toNode.mem_placeholders]
  · intro hfits dialect block hblock
    have hcompiled := Element.compilesTo_of_compile hblock
    rw [Block.usedInputs, hcompiled.binds hfits, hcompiled.mounts hfits, hcompiled.inputs,
      Element.inputs_bindStream hfits, e.inputs_mountStream]
    refine ⟨e.toNode.entries_placeholders, ?_, ?_, ?_, e.perm_insertionOrder⟩
    · intro input
      rw [List.mem_append, e.lt_length_inputs_iff]
    · rw [e.map_target?_boundProperties]
      exact e.map_getElem?_map_idxOf fun target h => (e.mem_targets_iff target).mpr (.inl h)
    · have hholes := e.map_getElem?_map_idxOf fun target h =>
        (e.mem_targets_iff target).mpr (.inr h)
      rw [hholes, List.map_map]
      rfl

theorem inputs_dense_paragraph :
    ∃ block, Element.paragraph.compile .html = .ok block ∧ block.inputs = [⟨7⟩, ⟨3⟩, ⟨9⟩] ∧
      (∀ input, input ∈ block.usedInputs ↔ input < block.inputs.length) ∧
      Element.paragraph.insertionOrder = [([4], ⟨9⟩), ([1], ⟨3⟩), ([3, 0], ⟨7⟩)] ∧
      (block.mounts.filterMap MountOp.input?).map (block.inputs[·]?) =
        [some ⟨9⟩, some ⟨3⟩, some ⟨7⟩] := by
  obtain ⟨-, -, -, hcompiled⟩ := inputs_dense Element.paragraph
  obtain ⟨hinputs, hused, -, hmounts, -⟩ := hcompiled ⟨by decide, by decide⟩ .html _ rfl
  exact ⟨_, rfl, hinputs.trans (by decide), hused, by decide, hmounts.trans (by decide)⟩

/-- On an element with 2 ^ 32 directives the only input is not used. -/
theorem input_of_heavy_unused :
    ∃ block, (Element.heavy (2 ^ 32)).compile .html = .ok block ∧ block.inputs = [⟨0⟩] ∧
      block.usedInputs = [] := by
  have hheavy : ∀ count, 0 < count → UInt32.ofNat count = 0 →
      ∃ block, (Element.heavy count).compile .html = .ok block ∧ block.inputs = [⟨0⟩] ∧
        block.usedInputs = [] := by
    intro count hpos hwrap
    have hstreams := Element.streams_heavy hwrap (Element.heavy count).toNode.placeholders
    refine ⟨_, Element.compile_heavy hpos hwrap, ?_, ?_⟩
    · exact congrArg Registry.entries (Element.placeholders_heavy hpos)
    · rw [Block.usedInputs, Element.blockOf, hstreams.1, hstreams.2.1]
      rfl
  exact hheavy _ (by decide) (by decide)

end DomTemplate

import Mathlib
import DomTemplate.Proofs.Overlong
import DomTemplate.Proofs.Words

/-!
# The slots that a block refers to

The binding stream selects elements by their slots, and the mounting stream selects parents and
neighbours.  The slots they name are exactly the ones that have been given out, and each is named
for what its node is: an element with bound properties, one with placeholders among its children, or
the right neighbour of the placeholder that is inserted next.
-/

namespace DomTemplate

/-- The slot that an operation names. -/
def BindOp.slot? : BindOp → Option Nat
  | setNode slot => some slot
  | _ => none

/-- The node at a place is the one of a slot, or the root if there is no slot. -/
def Selected (slotAt? : List Nat → Option Nat) (place : List Nat) : Option Nat → Prop
  | none => place = []
  | some slot => slotAt? place = some slot

namespace MountOp

/-- The slot that an operation names. -/
def slot? : MountOp → Option Nat
  | child _ => none
  | setNext slot => some slot
  | setParent slot => some slot

/-- The slot of the current parent after some operations, or none if it still is the root. -/
def parentAfter (current : Option Nat) : List MountOp → Option Nat
  | [] => current
  | child _ :: ops => parentAfter current ops
  | setNext _ :: ops => parentAfter current ops
  | setParent slot :: ops => parentAfter (some slot) ops

theorem parentAfter_of_notMem {current : Option Nat} {ops : List MountOp}
    (h : ∀ slot, setParent slot ∉ ops) : parentAfter current ops = current := by
  induction ops with
  | nil => rfl
  | cons op rest ih =>
      have hrest := ih fun slot hmem => h slot (List.mem_cons_of_mem _ hmem)
      cases op with
      | child input => exact hrest
      | setNext slot => exact hrest
      | setParent slot => exact absurd List.mem_cons_self (h slot)

/-- Every selection of a neighbour is as `P` says of the current parent, the slot and the operation
that follows. -/
def Selects (P : Option Nat → Nat → Option MountOp → Prop) (current : Option Nat) :
    List MountOp → Prop
  | [] => True
  | child _ :: ops => Selects P current ops
  | setNext slot :: ops => P current slot ops.head? ∧ Selects P current ops
  | setParent slot :: ops => Selects P (some slot) ops

variable {P : Option Nat → Nat → Option MountOp → Prop}

theorem Selects.append (hP : ∀ current slot, ¬ P current slot none) {current : Option Nat}
    {ops more : List MountOp} (hops : Selects P current ops)
    (hmore : Selects P (parentAfter current ops) more) : Selects P current (ops ++ more) := by
  induction ops generalizing current with
  | nil => exact hmore
  | cons op rest ih =>
      cases op with
      | child input => exact ih hops hmore
      | setParent slot => exact ih hops hmore
      | setNext slot =>
          refine ⟨?_, ih hops.2 hmore⟩
          -- What follows a selection is in the same part, since `P` asks for something to follow.
          cases rest with
          | nil => exact absurd hops.1 (hP current slot)
          | cons next rest => exact hops.1

theorem Selects.next {current : Option Nat} {before after : List MountOp} {slot : Nat}
    (h : Selects P current (before ++ setNext slot :: after)) :
    P (parentAfter current before) slot after.head? := by
  induction before generalizing current with
  | nil => exact h.1
  | cons op rest ih =>
      cases op with
      | child input => exact ih h
      | setParent slot => exact ih h
      | setNext slot => exact ih h.2

end MountOp

/-- The slots that the streams of a block name. -/
def Block.references (block : Block) : List Nat :=
  block.binds.filterMap BindOp.slot? ++ block.mounts.filterMap MountOp.slot?

theorem Block.mem_references {block : Block} {slot : Nat} :
    slot ∈ block.references ↔ .setNode slot ∈ block.binds ∨ .setParent slot ∈ block.mounts ∨
      .setNext slot ∈ block.mounts := by
  have hbinds : slot ∈ block.binds.filterMap BindOp.slot? ↔ .setNode slot ∈ block.binds := by
    rw [List.mem_filterMap]
    constructor
    · rintro ⟨op, hop, hslot⟩
      cases op <;> simp_all [BindOp.slot?]
    · exact fun hop => ⟨_, hop, rfl⟩
  have hmounts : slot ∈ block.mounts.filterMap MountOp.slot? ↔
      .setParent slot ∈ block.mounts ∨ .setNext slot ∈ block.mounts := by
    rw [List.mem_filterMap]
    constructor
    · rintro ⟨op, hop, hslot⟩
      cases op <;> simp_all [MountOp.slot?]
    · rintro (hop | hop)
      · exact ⟨_, hop, rfl⟩
      · exact ⟨_, hop, rfl⟩
  rw [references, List.mem_append, hbinds, hmounts]

namespace Outline

/-! ## Selected elements -/

/-- The number of bound properties of a node. -/
def bound : Outline → Nat
  | element _ _ marks .. => marks.bound
  | _ => 0

/-- The slot by which the binding stream selects a node. -/
def boundSlot? (outline : Outline) : Option Nat :=
  if 0 < outline.bound then outline.slot? else none

theorem setNode_notMem_bindProperties (inputs : Registry Placeholder) (keys : Registry String)
    (properties : List Property) (slot : Nat) :
    .setNode slot ∉ (bindProperties inputs keys properties).1 := by
  induction properties generalizing keys with
  | nil => simp [bindProperties]
  | cons p rest ih =>
      rw [bindProperties]
      split
      · exact ih keys
      · rename_i input hinput
        have hop : (bindProperty keys p input).1 ≠ .setNode slot := by
          rw [bindProperty]
          split <;> simp
        simp [hop.symm, ih]

mutual

theorem setNode_mem_bind (inputs : Registry Placeholder) (keys : Registry String)
    (place : List Nat) {slot : Nat} :
    ∀ {outline : Outline}, .setNode slot ∈ (bind inputs keys outline).1 ↔
      ∃ found ∈ outline.nodes place, found.2.boundSlot? = some slot
  | element tag properties marks following own children => by
      rw [nodes, List.exists_mem_cons_iff]
      by_cases hbound : 0 < marks.bound
      · simp [bind, hbound, boundSlot?, bound, slot?, setNode_notMem_bindProperties,
          setNode_mem_bindAll inputs _ place 0]
      · simp [bind, hbound, boundSlot?, bound, setNode_mem_bindAll inputs _ place 0]
  | text value following own => by
      simp [bind, nodes, boundSlot?, bound]
  | placeholder target => by
      simp [bind, nodes, boundSlot?, bound]

theorem setNode_mem_bindAll (inputs : Registry Placeholder) (keys : Registry String)
    (place : List Nat) (index : Nat) {slot : Nat} :
    ∀ {outlines : List Outline}, .setNode slot ∈ (bindAll inputs keys outlines).1 ↔
      ∃ found ∈ nodesAll place index outlines, found.2.boundSlot? = some slot
  | [] => by
      simp [bindAll, nodesAll]
  | outline :: rest => by
      rw [bindAll, List.mem_append, setNode_mem_bind inputs keys (place ++ [index]),
        setNode_mem_bindAll inputs _ place (index + 1), nodesAll]
      simp only [List.mem_append, or_and_right, exists_or]

end

theorem setNode_mem_bindStream (inputs : Registry Placeholder) {root : Outline} {slot : Nat} :
    .setNode slot ∈ (root.bindStream inputs).1 ↔
      ∃ place found, root.at? place = some found ∧ found.boundSlot? = some slot := by
  have hbind : .setNode slot ∈ (root.bindStream inputs).1 ↔ _ :=
    setNode_mem_bind inputs .empty []
  rw [hbind]
  simp [mem_nodes]

/-! ## Insertions by element -/

/-- The number of placeholders among the children of a node. -/
def mounts : Outline → Nat
  | element _ _ marks .. => marks.mounts
  | _ => 0

/-- The operations of the mounting stream for the children of one node. -/
def ownMounts (inputs : Registry Placeholder) (outline : Outline) : List MountOp :=
  if 0 < outline.mounts then
    outline.slot?.toList.map MountOp.setParent ++ mountChildren inputs outline.children
  else []

/-- The slot by which the mounting stream selects a node as a parent. -/
def parentSlot? (outline : Outline) : Option Nat :=
  if 0 < outline.mounts then outline.slot? else none

theorem mount_eq (inputs : Registry Placeholder) (outline : Outline) :
    outline.mount inputs = outline.ownMounts inputs ++ mountAll inputs outline.children := by
  cases outline with
  | element tag properties marks following slot children => rfl
  | text value following slot => simp [mount, ownMounts, mounts, mountAll, children]
  | placeholder target => simp [mount, ownMounts, mounts, mountAll, children]

mutual

theorem mem_mount (inputs : Registry Placeholder) (place : List Nat) {op : MountOp} :
    ∀ {outline : Outline}, op ∈ outline.mount inputs ↔
      ∃ found ∈ outline.nodes place, op ∈ found.2.ownMounts inputs
  | element tag properties marks following own children => by
      rw [mount_eq, List.mem_append, nodes, List.exists_mem_cons_iff]
      exact or_congr Iff.rfl (mem_mountAll inputs place 0)
  | text value following own => by
      simp [mount, nodes, ownMounts, mounts]
  | placeholder target => by
      simp [mount, nodes, ownMounts, mounts]

theorem mem_mountAll (inputs : Registry Placeholder) (place : List Nat) (index : Nat)
    {op : MountOp} :
    ∀ {outlines : List Outline}, op ∈ mountAll inputs outlines ↔
      ∃ found ∈ nodesAll place index outlines, op ∈ found.2.ownMounts inputs
  | [] => by
      simp [mountAll, nodesAll]
  | outline :: rest => by
      rw [mountAll, List.mem_append, mem_mount inputs (place ++ [index]),
        mem_mountAll inputs place (index + 1), nodesAll, or_comm]
      simp only [List.mem_append, or_and_right, exists_or]

end

theorem mem_mountStream (inputs : Registry Placeholder) {root : Outline} {op : MountOp} :
    op ∈ root.mountStream inputs ↔
      ∃ place found, root.at? place = some found ∧ op ∈ found.ownMounts inputs := by
  rw [mountStream, mem_mount inputs []]
  simp [mem_nodes]

theorem setParent_notMem_mountChildren (inputs : Registry Placeholder) (outlines : List Outline)
    (slot : Nat) : .setParent slot ∉ mountChildren inputs outlines := by
  induction outlines with
  | nil => simp [mountChildren]
  | cons outline rest ih =>
      cases outline with
      | element tag properties marks following own children => exact ih
      | text value following own => exact ih
      | placeholder target =>
          rw [mountChildren]
          split
          · exact ih
          · cases rest <;> simp_all [selectNext]

theorem setParent_mem_ownMounts (inputs : Registry Placeholder) {slot : Nat} {outline : Outline} :
    .setParent slot ∈ outline.ownMounts inputs ↔ outline.parentSlot? = some slot := by
  by_cases hmounts : 0 < outline.mounts
  · simp [ownMounts, parentSlot?, hmounts, setParent_notMem_mountChildren]
  · simp [ownMounts, parentSlot?, hmounts]

/-- The right neighbour of a placeholder is selected. -/
theorem setNext_mem_mountChildren {inputs : Registry Placeholder} {outlines : List Outline}
    {k slot input : Nat} {target : Placeholder} {neighbour : Outline}
    (htarget : outlines[k]? = some (.placeholder target))
    (hinput : inputs.index? target = some input)
    (hneighbour : outlines[k + 1]? = some neighbour) (hslot : neighbour.slot? = some slot) :
    .setNext slot ∈ mountChildren inputs outlines := by
  induction outlines generalizing k with
  | nil => simp at htarget
  | cons outline rest ih =>
      cases k with
      | zero =>
          obtain rfl : outline = .placeholder target := by simpa using htarget
          cases rest with
          | nil => simp at hneighbour
          | cons next rest =>
              obtain rfl : next = neighbour := by simpa using hneighbour
              simp [mountChildren, hinput, selectNext, hslot]
      | succ k =>
          have hmem := ih (k := k) (by simpa using htarget) (by simpa using hneighbour)
          cases outline with
          | element tag properties marks following own children => exact hmem
          | text value following own => exact hmem
          | placeholder target =>
              rw [mountChildren]
              split
              · exact hmem
              · simp [hmem]

/-! ## Neighbours -/

/-- A slot is the one of a child of the current parent, and the operation that follows inserts the
placeholder right before it. -/
def Neighbour (root : Outline) (inputs : Registry Placeholder) (current : Option Nat) (slot : Nat)
    (next : Option MountOp) : Prop :=
  ∃ parent index target input neighbour, Selected root.slotAt? parent current ∧
    root.at? (parent ++ [index]) = some (.placeholder target) ∧
    root.at? (parent ++ [index + 1]) = some neighbour ∧ neighbour.slot? = some slot ∧
    inputs.index? target = some input ∧ next = some (.child input)

theorem selects_append {root : Outline} {inputs : Registry Placeholder} {current : Option Nat}
    {ops more : List MountOp} (hops : MountOp.Selects (root.Neighbour inputs) current ops)
    (hmore : MountOp.Selects (root.Neighbour inputs) (MountOp.parentAfter current ops) more) :
    MountOp.Selects (root.Neighbour inputs) current (ops ++ more) :=
  .append (by simp [Neighbour]) hops hmore

theorem selects_selectNext {root : Outline} {inputs : Registry Placeholder} {current : Option Nat}
    {parent : List Nat} (hparent : Selected root.slotAt? parent current) {index input : Nat}
    {target : Placeholder} (htarget : root.at? (parent ++ [index]) = some (.placeholder target))
    (hinput : inputs.index? target = some input) {rest : List Outline}
    (hrest : ∀ k found, rest[k]? = some found →
      root.at? (parent ++ [index + 1 + k]) = some found) :
    MountOp.Selects (root.Neighbour inputs) current (selectNext rest ++ [.child input]) := by
  cases rest with
  | nil => trivial
  | cons neighbour rest =>
      cases hslot : neighbour.slot? with
      | none =>
          rw [selectNext, hslot]
          trivial
      | some slot =>
          have hneighbour := hrest 0 neighbour rfl
          rw [selectNext, hslot]
          exact ⟨⟨parent, index, target, input, neighbour, hparent, htarget, hneighbour, hslot,
            hinput, rfl⟩, trivial⟩

theorem selects_mountChildren {root : Outline} {inputs : Registry Placeholder}
    {current : Option Nat} {parent : List Nat} (hparent : Selected root.slotAt? parent current)
    (outlines : List Outline) {index : Nat}
    (houtlines : ∀ k found, outlines[k]? = some found →
      root.at? (parent ++ [index + k]) = some found) :
    MountOp.Selects (root.Neighbour inputs) current (mountChildren inputs outlines) := by
  induction outlines generalizing index with
  | nil => trivial
  | cons outline rest ih =>
      have hrest (k : Nat) (found : Outline) (h : rest[k]? = some found) :
          root.at? (parent ++ [index + 1 + k]) = some found := by
        have hfound := houtlines (k + 1) found (by simpa using h)
        rwa [show index + (k + 1) = index + 1 + k by omega] at hfound
      have hmore := ih hrest
      cases outline with
      | element tag properties marks following own children => exact hmore
      | text value following own => exact hmore
      | placeholder target =>
          rw [mountChildren]
          split
          · exact hmore
          · rename_i input hinput
            rw [List.append_assoc]
            apply selects_append hmore
            rw [MountOp.parentAfter_of_notMem (setParent_notMem_mountChildren inputs rest)]
            exact selects_selectNext hparent (houtlines 0 _ rfl) hinput hrest

theorem selects_ownMounts {root outline : Outline} {inputs : Registry Placeholder}
    {place : List Nat} (houtline : root.at? place = some outline) {current : Option Nat}
    (hselected : 0 < outline.mounts → Selected root.slotAt? place (outline.slot?.or current)) :
    MountOp.Selects (root.Neighbour inputs) current (outline.ownMounts inputs) := by
  have hchildren (k : Nat) (found : Outline) (h : outline.children[k]? = some found) :
      root.at? (place ++ [0 + k]) = some found := by
    rw [at?_append, houtline, Nat.zero_add]
    exact h
  rw [ownMounts]
  split
  · rename_i hmounts
    have hparent := hselected hmounts
    cases hslot : outline.slot? with
    | none =>
        rw [hslot, Option.none_or] at hparent
        exact selects_mountChildren hparent outline.children hchildren
    | some slot =>
        rw [hslot, Option.some_or] at hparent
        exact selects_mountChildren hparent outline.children hchildren
  · trivial

mutual

/-- Below the root every parent is selected before its neighbours are. -/
theorem selects_mount {root : Outline} {inputs : Registry Placeholder} {place : List Nat}
    {current : Option Nat} :
    ∀ {outline : Outline},
      (∀ found ∈ outline.nodes place, root.at? found.1 = some found.2 ∧
        (0 < found.2.mounts → found.2.slot?.isSome = true)) →
      MountOp.Selects (root.Neighbour inputs) current (outline.mount inputs)
  | element tag properties marks following own children, h => by
      rw [nodes, List.forall_mem_cons] at h
      obtain ⟨⟨houtline, hslot⟩, hchildren⟩ := h
      rw [mount_eq]
      refine selects_append (selects_ownMounts houtline ?_) (selects_mountAll hchildren)
      intro hmounts
      obtain ⟨slot, rfl⟩ : ∃ slot, own = some slot := Option.isSome_iff_exists.mp (hslot hmounts)
      simp [Selected, slot?, slotAt?, houtline]
  | text value following own, _ => trivial
  | placeholder target, _ => trivial

theorem selects_mountAll {root : Outline} {inputs : Registry Placeholder} {place : List Nat}
    {index : Nat} {current : Option Nat} :
    ∀ {outlines : List Outline},
      (∀ found ∈ nodesAll place index outlines, root.at? found.1 = some found.2 ∧
        (0 < found.2.mounts → found.2.slot?.isSome = true)) →
      MountOp.Selects (root.Neighbour inputs) current (mountAll inputs outlines)
  | [], _ => trivial
  | outline :: rest, h => by
      rw [nodesAll, List.forall_mem_append] at h
      rw [mountAll]
      exact selects_append (selects_mountAll h.2) (selects_mount h.1)

end

/-! ## Why a node has a slot -/

theorem Shows.bound_pos_iff {outline : Outline} {node : Node} (h : Shows outline node) :
    0 < outline.bound ↔ ∃ tag properties children, node = .element tag properties children ∧
      properties.any Property.isDynamic = true := by
  cases h with
  | element tag properties following slot children next =>
      simp [bound, marksOf, List.countP_pos_iff]
  | text value following slot => simp [bound]
  | placeholder target => simp [bound]

theorem Shows.mounts_pos_iff {outline : Outline} {node : Node} (h : Shows outline node) :
    0 < outline.mounts ↔ ∃ tag properties children, node = .element tag properties children ∧
      children.any Node.isPlaceholder = true := by
  cases h with
  | element tag properties following slot children next =>
      simp [mounts, marksOf, List.countP_pos_iff]
  | text value following slot => simp [mounts]
  | placeholder target => simp [mounts]

theorem Shows.mounts_pos_of_child {outline : Outline} {node : Node} (h : Shows outline node)
    {k : Nat} {target : Placeholder} (hchild : outline.children[k]? = some (.placeholder target)) :
    0 < outline.mounts := by
  obtain ⟨inner, free, following, hinner, hnumber⟩ := h.child hchild
  have hplaceholder : inner.isPlaceholder = true := by
    rw [← isPlaceholder_ofNode following inner, ← isPlaceholder_number _ free, ← hnumber]
    rfl
  have hany : node.children.any Node.isPlaceholder = true :=
    List.any_eq_true.mpr ⟨inner, List.mem_of_getElem? hinner, hplaceholder⟩
  cases h with
  | element tag properties following slot children next =>
      exact List.countP_pos_iff.mpr (List.any_eq_true.mp hany)
  | text value following slot => simp [Node.children] at hany
  | placeholder target => simp [Node.children] at hany

/-- A child that has bound properties or placeholders among its children has a slot. -/
theorem Shows.isSome_slot?_of_patched {outline child : Outline} {node : Node}
    (h : Shows outline node) {k : Nat} (hchild : outline.children[k]? = some child)
    (hpatched : 0 < child.bound ∨ 0 < child.mounts) : child.slot?.isSome = true := by
  obtain ⟨inner, free, following, -, rfl⟩ := h.child hchild
  rw [slot?_number]
  rcases hpatched with hbound | hmounts
  · obtain ⟨tag, properties, children, rfl, hany⟩ := (shows_number ..).bound_pos_iff.mp hbound
    simp [Node.needsSlot, Node.patched, hany, slotIf]
  · obtain ⟨tag, properties, children, rfl, hany⟩ := (shows_number ..).mounts_pos_iff.mp hmounts
    simp [Node.needsSlot, Node.patched, hany, slotIf]

theorem Shows.placeholder_of_behind {outline : Outline} {node : Node} (h : Shows outline node)
    {k : Nat} {child : Outline} (hchild : outline.children[k]? = some child)
    (hbehind : (false :: node.children.map Node.isPlaceholder).getD k false = true) :
    ∃ j target, k = j + 1 ∧ outline.children[j]? = some (.placeholder target) := by
  cases k with
  | zero => simp at hbehind
  | succ j =>
      obtain ⟨hlt, -⟩ := List.getElem?_eq_some_iff.mp hchild
      have hleft := List.getElem?_eq_getElem (Nat.lt_of_succ_lt hlt)
      obtain ⟨inner, free, following, hinner, hnumber⟩ := h.child hleft
      have hplaceholder : inner.isPlaceholder = true := by simpa [hinner] using hbehind
      obtain ⟨target, rfl⟩ := inner.isPlaceholder_iff.mp hplaceholder
      rw [hnumber] at hleft
      exact ⟨j, target, rfl, hleft⟩

/-- A child has a slot because it is patched or because it is right behind a placeholder. -/
theorem Shows.why_slot {outline child : Outline} {node : Node} (h : Shows outline node) {k : Nat}
    (hchild : outline.children[k]? = some child) {slot : Nat} (hslot : child.slot? = some slot) :
    0 < child.bound ∨ 0 < child.mounts ∨
      ∃ j target, k = j + 1 ∧ outline.children[j]? = some (.placeholder target) := by
  have hbehind := h.placeholder_of_behind hchild
  obtain ⟨inner, free, following, -, rfl⟩ := h.child hchild
  have hshows := shows_number ((false :: node.children.map Node.isPlaceholder).getD k false) free
    following inner
  rw [hshows.bound_pos_iff, hshows.mounts_pos_iff]
  have hneeds : inner.needsSlot
      ((false :: node.children.map Node.isPlaceholder).getD k false) = true := by
    by_contra hnot
    rw [slot?_number, slotIf, if_neg hnot] at hslot
    cases hslot
  cases inner with
  | element tag properties children =>
      simp only [Node.needsSlot, Node.patched, Bool.or_eq_true] at hneeds
      rcases hneeds with hneeds | hproperties | hchildren
      · exact .inr (.inr (hbehind hneeds))
      · exact .inl ⟨tag, properties, children, rfl, hproperties⟩
      · exact .inr (.inl ⟨tag, properties, children, rfl, hchildren⟩)
  | text value => exact .inr (.inr (hbehind hneeds))
  | placeholder target => simp [Node.needsSlot] at hneeds

end Outline

namespace Element

theorem shows_outline (e : Element) : e.outline.Shows e.toNode := by
  rw [outline_eq]
  exact .element ..

/-- Below the root a node is a child of another one. -/
theorem exists_parent (e : Element) {place : List Nat} (hplace : place ≠ []) {found : Outline}
    (h : e.outline.at? place = some found) :
    ∃ parent index outline node, place = parent ++ [index] ∧
      e.outline.at? parent = some outline ∧ outline.Shows node ∧
      outline.children[index]? = some found := by
  rw [← List.dropLast_append_getLast hplace, Outline.at?_append] at h
  obtain ⟨outline, houtline, hfound⟩ := Option.bind_eq_some_iff.mp h
  obtain ⟨node, -, hshows⟩ := e.shows_outline.at? houtline
  exact ⟨_, _, outline, node, (List.dropLast_append_getLast hplace).symm, houtline, hshows, hfound⟩

theorem slot?_outline (e : Element) : e.outline.slot? = none := by
  rw [outline_eq]
  rfl

theorem ne_nil_of_slot (e : Element) {place : List Nat} {found : Outline}
    (hfound : e.outline.at? place = some found) {slot : Nat} (hslot : found.slot? = some slot) :
    place ≠ [] := by
  rintro rfl
  obtain rfl : e.outline = found := Option.some.inj hfound
  simp [slot?_outline] at hslot

/-- Neighbours are selected for the placeholders before them, all along the stream of a root. -/
theorem selects_mountStream (e : Element) (inputs : Registry Placeholder) :
    MountOp.Selects (e.outline.Neighbour inputs) none (e.outline.mountStream inputs) := by
  have hroot : e.outline.at? [] = some e.outline := rfl
  have hbelow : ∀ found ∈ Outline.nodesAll [] 0 e.outline.children,
      e.outline.at? found.1 = some found.2 ∧
        (0 < found.2.mounts → found.2.slot?.isSome = true) := by
    rintro ⟨place, found⟩ hmem
    obtain ⟨k, below, rfl, hfound⟩ := (Outline.mem_nodesAll []).mp hmem
    have hat : e.outline.at? ([] ++ (0 + k) :: below) = some found := by
      rw [List.nil_append, Nat.zero_add]
      exact hfound
    obtain ⟨_, _, outline, node, -, -, hshows, hchild⟩ := e.exists_parent (by simp) hat
    exact ⟨hat, fun hmounts => hshows.isSome_slot?_of_patched hchild (.inr hmounts)⟩
  rw [Outline.mountStream, Outline.mount_eq]
  refine Outline.selects_append (Outline.selects_ownMounts hroot ?_)
    (Outline.selects_mountAll hbelow)
  intro _
  rw [slot?_outline]
  rfl

theorem slotAt?_eq_some (e : Element) {place : List Nat} {found : Outline} {slot : Nat}
    (hfound : e.outline.at? place = some found) (hslot : found.slot? = some slot) :
    e.outline.slotAt? place = some slot := by
  rw [Outline.slotAt?, hfound]
  exact hslot

/-- The element that the binding stream selects by a slot. -/
theorem element_of_setNode (e : Element) {inputs : Registry Placeholder} {slot : Nat}
    (h : .setNode slot ∈ (e.outline.bindStream inputs).1) :
    ∃ place tag properties children, place ≠ [] ∧ e.outline.slotAt? place = some slot ∧
      e.toNode.at? place = some (.element tag properties children) ∧
      properties.any Property.isDynamic = true := by
  obtain ⟨place, found, hfound, hslot⟩ := (Outline.setNode_mem_bindStream inputs).mp h
  obtain ⟨hbound, hslot⟩ : 0 < found.bound ∧ found.slot? = some slot := by
    simpa [Outline.boundSlot?] using hslot
  obtain ⟨node, hnode, hshows⟩ := e.shows_outline.at? hfound
  obtain ⟨tag, properties, children, rfl, hdynamic⟩ := hshows.bound_pos_iff.mp hbound
  exact ⟨place, tag, properties, children, e.ne_nil_of_slot hfound hslot,
    e.slotAt?_eq_some hfound hslot, hnode, hdynamic⟩

/-- The element that the mounting stream selects as a parent by a slot. -/
theorem element_of_setParent (e : Element) {inputs : Registry Placeholder} {slot : Nat}
    (h : .setParent slot ∈ e.outline.mountStream inputs) :
    ∃ place tag properties children, place ≠ [] ∧ e.outline.slotAt? place = some slot ∧
      e.toNode.at? place = some (.element tag properties children) ∧
      children.any Node.isPlaceholder = true := by
  obtain ⟨place, found, hfound, hslot⟩ := (Outline.mem_mountStream inputs).mp h
  obtain ⟨hmounts, hslot⟩ : 0 < found.mounts ∧ found.slot? = some slot := by
    simpa [Outline.setParent_mem_ownMounts, Outline.parentSlot?] using hslot
  obtain ⟨node, hnode, hshows⟩ := e.shows_outline.at? hfound
  obtain ⟨tag, properties, children, rfl, hany⟩ := hshows.mounts_pos_iff.mp hmounts
  exact ⟨place, tag, properties, children, e.ne_nil_of_slot hfound hslot,
    e.slotAt?_eq_some hfound hslot, hnode, hany⟩

/-- The node that the mounting stream selects as a neighbour by a slot. -/
theorem neighbour_of_setNext (e : Element) {inputs : Registry Placeholder} {slot : Nat}
    {before after : List MountOp}
    (h : e.outline.mountStream inputs = before ++ .setNext slot :: after) :
    ∃ parent index target input neighbour rest,
      Selected e.outline.slotAt? parent (MountOp.parentAfter none before) ∧
      e.toNode.at? (parent ++ [index]) = some (.placeholder target) ∧
      e.toNode.at? (parent ++ [index + 1]) = some neighbour ∧ neighbour.isPlaceholder = false ∧
      e.outline.slotAt? (parent ++ [index + 1]) = some slot ∧
      after = .child input :: rest ∧ inputs.entries[input]? = some target := by
  have hselects := e.selects_mountStream inputs
  rw [h] at hselects
  obtain ⟨parent, index, target, input, found, hparent, htarget, hfound, hslot, hinput, hnext⟩ :=
    hselects.next
  obtain ⟨hole, hhole, hshows⟩ := e.shows_outline.at? htarget
  cases hshows
  obtain ⟨neighbour, hneighbour, hshows⟩ := e.shows_outline.at? hfound
  obtain ⟨rest, rfl⟩ := List.head?_eq_some_iff.mp hnext
  refine ⟨parent, index, target, input, neighbour, rest, hparent, hhole, hneighbour, ?_,
    e.slotAt?_eq_some hfound hslot, rfl, Registry.getElem?_of_index? hinput⟩
  cases hshows with
  | element tag properties following own children next => rfl
  | text value following own => rfl
  | placeholder target => simp [Outline.slot?] at hslot

/-- Every slot that is named has been given out. -/
theorem exists_slotAt?_of_reference (e : Element) {inputs : Registry Placeholder} {slot : Nat}
    (h : .setNode slot ∈ (e.outline.bindStream inputs).1 ∨
      .setParent slot ∈ e.outline.mountStream inputs ∨
      .setNext slot ∈ e.outline.mountStream inputs) :
    ∃ place, e.outline.slotAt? place = some slot := by
  rcases h with h | h | h
  · obtain ⟨place, _, _, _, -, hslot, -⟩ := e.element_of_setNode h
    exact ⟨place, hslot⟩
  · obtain ⟨place, _, _, _, -, hslot, -⟩ := e.element_of_setParent h
    exact ⟨place, hslot⟩
  · obtain ⟨before, after, hstream⟩ := List.append_of_mem h
    obtain ⟨parent, index, _, _, _, _, -, -, -, -, hslot, -⟩ := e.neighbour_of_setNext hstream
    exact ⟨parent ++ [index + 1], hslot⟩

/-- Every slot that has been given out is named. -/
theorem slot_referenced (e : Element) {place : List Nat} {slot : Nat}
    (h : e.outline.slotAt? place = some slot) :
    .setNode slot ∈ (e.outline.bindStream e.toNode.placeholders).1 ∨
      .setParent slot ∈ e.outline.mountStream e.toNode.placeholders ∨
      .setNext slot ∈ e.outline.mountStream e.toNode.placeholders := by
  obtain ⟨found, hfound, hslot⟩ := Option.bind_eq_some_iff.mp h
  obtain ⟨parent, index, outline, node, rfl, houtline, hshows, hchild⟩ :=
    e.exists_parent (e.ne_nil_of_slot hfound hslot) hfound
  rcases hshows.why_slot hchild hslot with hbound | hmounts | ⟨j, target, rfl, htarget⟩
  · left
    exact (Outline.setNode_mem_bindStream _).mpr
      ⟨_, found, hfound, by simp [Outline.boundSlot?, hbound, hslot]⟩
  · right; left
    refine (Outline.mem_mountStream _).mpr ⟨_, found, hfound, ?_⟩
    simp [Outline.setParent_mem_ownMounts, Outline.parentSlot?, hmounts, hslot]
  · right; right
    have hplace : e.outline.at? (parent ++ [j]) = some (.placeholder target) := by
      rw [Outline.at?_append, houtline]
      exact htarget
    obtain ⟨hole, hhole, hshown⟩ := e.shows_outline.at? hplace
    cases hshown
    -- The placeholder on the left has an input, so it is not skipped.
    have hoccurs : target ∈ e.toNode.targets :=
      Node.mem_targets_of_at? hhole List.mem_cons_self
    obtain ⟨input, hinput⟩ :=
      Registry.exists_index? ((e.toNode.mem_placeholders target).mpr hoccurs)
    have hnext := Outline.setNext_mem_mountChildren htarget hinput hchild hslot
    refine (Outline.mem_mountStream _).mpr ⟨_, outline, houtline, ?_⟩
    simp [Outline.ownMounts, hshows.mounts_pos_of_child htarget, hnext]

end Element

/-- The streams of the block of a root that words can count name exactly the slots that the root has
given out, and each operation names the slot of a node of the sort that it is about. -/
theorem slot_references_exact (e : Element) (dialect : Dialect) (block : Block)
    (hfits : e.toNode.FitsWords) (hblock : e.compile dialect = .ok block) :
    (∀ slot, slot ∈ block.references ↔ 0 < slot ∧ slot < block.flags.walkSlots) ∧
    (∀ slot, .setNode slot ∈ block.binds →
      ∃ place tag properties children, place ≠ [] ∧ e.scratch.slotAt? place = some slot ∧
        e.toNode.at? place = some (.element tag properties children) ∧
        properties.any Property.isDynamic = true) ∧
    (∀ slot, .setParent slot ∈ block.mounts →
      ∃ place tag properties children, place ≠ [] ∧ e.scratch.slotAt? place = some slot ∧
        e.toNode.at? place = some (.element tag properties children) ∧
        children.any Node.isPlaceholder = true) ∧
    (∀ before slot after, block.mounts = before ++ .setNext slot :: after →
      ∃ parent index target input neighbour rest,
        Selected e.scratch.slotAt? parent (MountOp.parentAfter none before) ∧
        e.toNode.at? (parent ++ [index]) = some (.placeholder target) ∧
        e.toNode.at? (parent ++ [index + 1]) = some neighbour ∧ neighbour.isPlaceholder = false ∧
        e.scratch.slotAt? (parent ++ [index + 1]) = some slot ∧
        after = .child input :: rest ∧ block.inputs[input]? = some target) := by
  have hcompiled := Element.compilesTo_of_compile hblock
  have hslots : e.scratch.slotAt? = e.outline.slotAt? := funext (Element.slotAt?_scratch hfits)
  have hcount : countMounts block.mounts < 64 := by
    rw [hcompiled.countMounts_eq]
    exact hcompiled.childSlots
  rw [hslots]
  refine ⟨?_, ?_, ?_, ?_⟩
  · intro slot
    rw [Block.mem_references, hcompiled.flags hfits,
      Flags.walkSlots_ofCounts (hcompiled.slotCount_lt hfits) hcount, ← e.exists_slotAt?_iff,
      hcompiled.binds hfits, hcompiled.mounts hfits]
    constructor
    · exact e.exists_slotAt?_of_reference
    · rintro ⟨place, hslot⟩
      exact e.slot_referenced hslot
  · rw [hcompiled.binds hfits]
    exact fun slot => e.element_of_setNode
  · rw [hcompiled.mounts hfits]
    exact fun slot => e.element_of_setParent
  · rw [hcompiled.mounts hfits, hcompiled.inputs]
    exact fun before slot after => e.neighbour_of_setNext

theorem slot_references_paragraph :
    ∃ block, Element.paragraph.compile .html = .ok block ∧
      (∀ slot, slot ∈ block.references ↔ 0 < slot ∧ slot < block.flags.walkSlots) ∧
      block.references.length = 4 ∧ block.flags.walkSlots = 4 :=
  ⟨_, rfl, (slot_references_exact Element.paragraph .html _ ⟨by decide, by decide⟩ rfl).1,
    by decide, by decide⟩

/-- Behind 2 ^ 32 placeholders an element gets a slot to which nothing refers. -/
theorem slot_of_crowded_unreferenced :
    ∃ block, (Element.crowded (2 ^ 32 - 1)).compile .html = .ok block ∧
      block.flags.walkSlots = 2 ∧ block.references = [] := by
  have hcrowded : ∀ count, UInt32.ofNat (count + 1) = 0 →
      ∃ block, (Element.crowded count).compile .html = .ok block ∧
        block.flags.walkSlots = 2 ∧ block.references = [] := by
    intro count hwrap
    have hstreams := Element.streams_crowded hwrap (Element.crowded count).toNode.placeholders
    refine ⟨_, Element.compile_crowded hwrap, ?_, ?_⟩
    · rw [Element.blockOf, Element.slotsGiven_crowded hwrap, Element.mountCount, hstreams.2]
      exact (by decide : (Flags.ofCounts 2 0 false).walkSlots = 2)
    · rw [Block.references, Element.blockOf, hstreams.1, hstreams.2]
      rfl
  exact hcrowded _ (by decide)

end DomTemplate

import Mathlib
import DomTemplate.Proofs.Counting
import DomTemplate.Proofs.Keys
import DomTemplate.Proofs.Outline.Mount
import DomTemplate.Proofs.Traces
import DomTemplate.Scratch.Bind
import DomTemplate.Scratch.Mount

/-!
# The streams of trees that words can count

The streams of a scratch tree are those of the outline it is read as, under three conditions: no
level of the walk is too long for a word, there are no more inputs and keys than words, and every
node that a stream refers to by its slot has been given one.  The last one is worth a proof, since a
slot that has not been given looks like the slot of the root.
-/

namespace DomTemplate

/-! ## The size of an outline -/

namespace Outline

mutual

/-- The number of nodes of an outline. -/
def size : Outline → Nat
  | element _ _ _ _ _ children => sizeAll children + 1
  | text .. => 1
  | placeholder _ => 1

def sizeAll : List Outline → Nat
  | [] => 0
  | outline :: rest => size outline + sizeAll rest

end

mutual

theorem size_ofNode (following : Following) :
    ∀ node : Node, (ofNode following node).size = node.nodeCount
  | .element tag properties children => by
      rw [ofNode_element, size, sizeAll_ofNodes, Node.nodeCount]
  | .text value => rfl
  | .placeholder target => rfl

theorem sizeAll_ofNodes : ∀ nodes : List Node, sizeAll (ofNodes nodes).1 = Node.nodeCountAll nodes
  | [] => rfl
  | node :: rest => by
      rw [ofNodes_cons, sizeAll, size_ofNode, sizeAll_ofNodes, Node.nodeCountAll]

end

mutual

theorem size_number (behind : Bool) (next : Nat) :
    ∀ outline : Outline, (number behind next outline).1.size = outline.size
  | element tag properties marks following slot children => by
      rw [number, size]
      split
      · rw [size, sizeAll_numberAll]
      · rw [size, sizeAll_numberAll]
  | text value following slot => by
      cases behind <;> rfl
  | placeholder target => rfl

theorem sizeAll_numberAll (behind : Bool) (next : Nat) :
    ∀ outlines : List Outline, sizeAll (numberAll behind next outlines).1 = sizeAll outlines
  | [] => rfl
  | outline :: rest => by
      rw [numberAll, sizeAll, size_number, sizeAll_numberAll, sizeAll]

end

theorem length_stepInto (save : Bool) (inner : List WalkOp) :
    (stepInto save inner).length = inner.length + 1 := by
  cases inner <;> simp [stepInto]

mutual

/-- The walk has no more steps than there are nodes. -/
theorem length_visit_le (save : Bool) :
    ∀ outline : Outline, (visit save outline).length ≤ outline.size
  | element tag properties marks following slot children => by
      have hinner := length_walk_le false false children
      rw [visit, length_stepInto, size]
      split
      · omega
      · exact Nat.le_add_left 1 _
  | text value following slot => Nat.le_refl 1
  | placeholder target => Nat.zero_le 1

theorem length_walk_le (afterText behind : Bool) :
    ∀ outlines : List Outline, (walk afterText behind outlines).length ≤ sizeAll outlines
  | [] => Nat.le_refl 0
  | element tag properties marks following slot children :: rest => by
      have hown := length_visit_le (behind || marks.patched)
        (element tag properties marks following slot children)
      have hrest := length_walk_le false false rest
      rw [walk, sizeAll]
      split
      · split
        · exact Nat.zero_le _
        · omega
      · rw [List.length_append]
        omega
  | text value following slot :: rest => by
      have hrest := length_walk_le true false rest
      rw [walk, sizeAll, size]
      split
      · rw [List.length_cons]
        omega
      · split
        · exact Nat.zero_le _
        · rw [List.length_cons]
          omega
  | placeholder target :: rest => by
      have hrest := length_walk_le afterText true rest
      rw [walk, sizeAll]
      omega

end

end Outline

/-! ## The walk -/

namespace Scratch

/-- Few enough steps are entered by their exact number. -/
theorem traceInto_eq {inner : List (List Nat × WalkOp)} (h : inner.length < 2 ^ 32)
    (place : List Nat) (save : Bool) :
    traceInto place save inner = Outline.traceInto place save inner := by
  have hlength := toNat_ofNat_of_lt h
  cases inner with
  | nil => rfl
  | cons first rest =>
      have hpos : 0 < UInt32.ofNat (first :: rest).length := by
        rw [pos_iff_toNat, hlength]
        exact Nat.succ_pos _
      rw [traceInto, step, if_pos hpos, hlength]
      rfl

/-- A step is taken back if it is the only one and records nothing. -/
theorem retractTrace_traceInto (place : List Nat) (save : Bool)
    (inner : List (List Nat × WalkOp)) :
    retractTrace (Outline.traceInto place save inner) =
      if (Outline.traceInto place save inner).map Prod.snd = [.next] then []
      else Outline.traceInto place save inner := by
  cases inner with
  | nil => cases save <;> rfl
  | cons first rest => simp [retractTrace, Outline.traceInto]

/-- The steps from the element at a place on, with `inner` below it and `more` behind it. -/
def stepsFrom (place : List Nat) (save last : Bool) (inner more : List (List Nat × WalkOp)) :
    List (List Nat × WalkOp) :=
  if last then
    if (Outline.traceInto place save inner).map Prod.snd = [.next] then []
    else Outline.traceInto place save inner
  else Outline.traceInto place save inner ++ more

/-- Whatever the walk does behind an element, it has all the steps below it. -/
theorem length_inner_le (place : List Nat) (save last : Bool)
    (inner more : List (List Nat × WalkOp)) :
    inner.length ≤ (stepsFrom place save last inner more).length := by
  have hsteps : ((Outline.traceInto place save inner).map Prod.snd).length = inner.length + 1 := by
    rw [Outline.map_snd_traceInto, Outline.length_stepInto, List.length_map]
  rw [stepsFrom]
  split
  · split
    · rename_i hnext
      rw [hnext, List.length_singleton] at hsteps
      exact Nat.le_of_eq (Nat.succ.inj hsteps).symm
    · rw [List.length_map] at hsteps
      omega
  · rw [List.length_map] at hsteps
    rw [List.length_append]
    omega

theorem length_more_le (place : List Nat) (save : Bool) (inner more : List (List Nat × WalkOp)) :
    more.length ≤ (stepsFrom place save false inner more).length := by
  simp [stepsFrom]

theorem trace_readAll_element (place : List Nat) (index : Nat) (afterText behind : Bool)
    (tag : String) (properties : List Property) (bound mounts : UInt32) (flags : UInt8)
    (slot : UInt32) (children rest : List Scratch) :
    Outline.trace place index afterText behind
        (readAll (element tag properties bound mounts flags slot children :: rest)) =
      stepsFrom (place ++ [index]) (behind || (0 < bound || 0 < mounts))
        (element tag properties bound mounts flags slot children).isLast
        (if Flag.dynamic.isIn flags then
          Outline.trace (place ++ [index]) 0 false false (readAll children) else [])
        (Outline.trace place (index + 1) false false (readAll rest)) := by
  have hends : (following flags).ends =
      (element tag properties bound mounts flags slot children).isLast := ends_following (element ..)
  rw [readAll, read, Outline.trace, Outline.traceVisit, patched_eq, hends]
  rfl

/-- The trace of siblings, if it is short enough for its lengths to be kept in words. -/
theorem traceAll_eq (place : List Nat) (index : Nat) (afterText behind : Bool) :
    ∀ {nodes : List Scratch},
      (Outline.trace place index afterText behind (readAll nodes)).length < 2 ^ 32 →
      traceAll place index afterText behind nodes =
        Outline.trace place index afterText behind (readAll nodes)
  | [], _ => rfl
  | element tag properties bound mounts flags slot children :: rest, hlt => by
      rw [trace_readAll_element] at hlt ⊢
      -- The steps below the element are part of the trace, so they are few enough as well.
      have hinner := Nat.lt_of_le_of_lt (length_inner_le _ _ _ _ _) hlt
      have hown : (if Flag.dynamic.isIn flags then
            traceAll (place ++ [index]) 0 false false children else []) =
          if Flag.dynamic.isIn flags then
            Outline.trace (place ++ [index]) 0 false false (readAll children) else [] := by
        split
        · rename_i hdynamic
          rw [if_pos hdynamic] at hinner
          exact traceAll_eq (place ++ [index]) 0 false false hinner
        · rfl
      rw [traceAll_element, hown, traceInto_eq hinner]
      simp only [retractTrace_traceInto, stepsFrom]
      split
      · rfl
      · rename_i hlast
        rw [Bool.eq_false_of_not_eq_true hlast] at hlt
        have hmore := Nat.lt_of_le_of_lt (length_more_le _ _ _ _) hlt
        rw [traceAll_eq place (index + 1) false false hmore]
  | text value flags slot :: rest, hlt => by
      have hends : (following flags).ends = (text value flags slot).isLast :=
        ends_following (text value flags slot)
      rw [readAll, read, Outline.trace, hends] at hlt ⊢
      rw [traceAll]
      split at hlt
      · rename_i hbehind
        rw [List.length_cons] at hlt
        have hmore := traceAll_eq place (index + 1) true false (Nat.lt_of_succ_lt hlt)
        simp only [hbehind, if_true, hmore]
      · rename_i hbehind
        simp only [hbehind]
        split at hlt
        · rename_i hlast
          simp [hlast]
        · rename_i hlast
          rw [List.length_cons] at hlt
          have hmore := traceAll_eq place (index + 1) true false (Nat.lt_of_succ_lt hlt)
          simp only [hlast, hmore]
  | placeholder target flags :: rest, hlt => by
      rw [readAll, read, Outline.trace] at hlt ⊢
      rw [traceAll, traceAll_eq place (index + 1) afterText true hlt]

theorem trace_eq {node : Scratch} (h : node.read.walkStream.length < 2 ^ 32) :
    node.trace [] = node.read.traceStream := by
  rw [← Outline.map_snd_traceStream, List.length_map] at h
  cases node with
  | element tag properties bound mounts flags slot children => exact traceAll_eq [] 0 false false h
  | text value flags slot => rfl
  | placeholder target flags => rfl

theorem walk_eq {node : Scratch} (h : node.read.walkStream.length < 2 ^ 32) :
    node.walk = node.read.walkStream := by
  rw [← map_snd_trace [], trace_eq h, Outline.map_snd_traceStream]

end Scratch

/-! ## Nodes that have been given a slot -/

namespace Outline

mutual

/-- Whether every node at and below a node that needs a slot has one. -/
def isSlotted (behindPlaceholder : Bool) : Outline → Bool
  | element _ _ marks _ slot children =>
    (slot.isSome || !(behindPlaceholder || marks.patched)) && isSlottedAll false children
  | text _ _ slot => slot.isSome || !behindPlaceholder
  | placeholder _ => true

def isSlottedAll (behindPlaceholder : Bool) : List Outline → Bool
  | [] => true
  | outline :: rest => isSlotted behindPlaceholder outline && isSlottedAll outline.isPlaceholder rest

end

mutual

theorem isSlotted_number (behind : Bool) (next : Nat) :
    ∀ outline : Outline, isSlotted behind (number behind next outline).1 = true
  | element tag properties marks following slot children => by
      rw [number]
      split
      · simp [isSlotted, isSlottedAll_numberAll]
      · rename_i hneeded
        simp [isSlotted, isSlottedAll_numberAll, Bool.eq_false_of_not_eq_true hneeded]
  | text value following slot => by
      cases behind <;> simp [number, isSlotted]
  | placeholder target => rfl

/-- Numbering leaves out no node that needs a slot. -/
theorem isSlottedAll_numberAll (behind : Bool) (next : Nat) :
    ∀ outlines : List Outline, isSlottedAll behind (numberAll behind next outlines).1 = true
  | [] => rfl
  | outline :: rest => by
      rw [numberAll, isSlottedAll, isPlaceholder_number, isSlotted_number, isSlottedAll_numberAll]
      rfl

end

end Outline

/-! ## Bindings -/

namespace Scratch

theorem bindProperty_eq {keys : Registry String} {p : Property} {input : UInt32}
    (hkeys : (Outline.bindProperty keys p input.toNat).2.size ≤ 2 ^ 32) :
    bindProperty keys p input = Outline.bindProperty keys p input.toNat := by
  rw [bindProperty, Outline.bindProperty]
  rw [Outline.bindProperty] at hkeys
  cases htarget : Target.of p.kind p.key with
  | common property => rfl
  | directive => rfl
  | keyed binding =>
      simp only [htarget] at hkeys
      have hword := Registry.word?_eq hkeys p.key
      obtain ⟨i, hi⟩ := keys.exists_index?_insert p.key
      rw [hi] at hword
      obtain ⟨word, hfound, rfl⟩ := Option.map_eq_some_iff.mp hword
      simp only [hi, hfound, Option.getD_some]

theorem bindProperties_eq {inputs : Registry Placeholder} (hinputs : inputs.size ≤ 2 ^ 32)
    {keys : Registry String} {properties : List Property}
    (hkeys : (Outline.bindProperties inputs keys properties).2.size ≤ 2 ^ 32) :
    bindProperties inputs keys properties = Outline.bindProperties inputs keys properties := by
  induction properties generalizing keys with
  | nil => rfl
  | cons p rest ih =>
      have hword : (p.target?.bind inputs.word?).map UInt32.toNat =
          p.target?.bind inputs.index? := by
        cases p.target? with
        | none => rfl
        | some target => exact Registry.word?_eq hinputs target
      rw [bindProperties, Outline.bindProperties, ← hword]
      rw [Outline.bindProperties, ← hword] at hkeys
      cases hinput : p.target?.bind inputs.word? with
      | none =>
          rw [hinput] at hkeys
          exact ih hkeys
      | some input =>
          simp only [hinput, Option.map_some] at hkeys
          -- Keys are only added, so the bound at the end holds all the way.
          have hown : (Outline.bindProperty keys p input.toNat).2.size ≤ 2 ^ 32 :=
            (Outline.prefix_bindProperties inputs _ rest).length_le.trans hkeys
          simp only [Option.map_some, bindProperty_eq hown, ih hkeys]

theorem given?_of_isSome {slot : UInt32} (h : (given? slot).isSome = true) :
    given? slot = some slot.toNat := by
  rw [given?] at h ⊢
  split at h
  · cases h
  · rename_i hne
    rw [if_neg hne]

mutual

/-- The bindings of a node below the root, if it has been given the slots that it needs. -/
theorem bind_eq {inputs : Registry Placeholder} (hinputs : inputs.size ≤ 2 ^ 32) {behind : Bool}
    {keys : Registry String} :
    ∀ {node : Scratch}, node.read.isSlotted behind = true →
      (Outline.bind inputs keys node.read).2.size ≤ 2 ^ 32 →
      bind inputs false keys node = Outline.bind inputs keys node.read
  | element tag properties bound mounts flags slot children, hslotted, hkeys => by
      rw [read, Outline.isSlotted, Bool.and_eq_true, patched_eq] at hslotted
      obtain ⟨hown, hchildren⟩ := hslotted
      rw [read, Outline.bind] at hkeys ⊢
      simp only [← pos_iff_toNat] at hkeys ⊢
      rw [bind]
      by_cases hbound : 0 < bound
      · -- An element with bound properties needs a slot, so the one it is selected by is its own.
        have hgiven : given? slot = some slot.toNat :=
          given?_of_isSome (by simpa [hbound] using hown)
        simp only [if_pos hbound] at hkeys ⊢
        have hproperties : (Outline.bindProperties inputs keys properties).2.size ≤ 2 ^ 32 :=
          (Outline.prefix_bindAll inputs _ (readAll children)).length_le.trans hkeys
        simp only [bindProperties_eq hinputs hproperties, bindAll_eq hinputs hchildren hkeys, hgiven]
        rfl
      · simp only [if_neg hbound] at hkeys ⊢
        exact bindAll_eq hinputs hchildren hkeys
  | text value flags slot, _, _ => rfl
  | placeholder target flags, _, _ => rfl

theorem bindAll_eq {inputs : Registry Placeholder} (hinputs : inputs.size ≤ 2 ^ 32) {behind : Bool}
    {keys : Registry String} :
    ∀ {nodes : List Scratch}, Outline.isSlottedAll behind (readAll nodes) = true →
      (Outline.bindAll inputs keys (readAll nodes)).2.size ≤ 2 ^ 32 →
      bindAll inputs keys nodes = Outline.bindAll inputs keys (readAll nodes)
  | [], _, _ => rfl
  | node :: rest, hslotted, hkeys => by
      rw [readAll, Outline.isSlottedAll, Bool.and_eq_true] at hslotted
      rw [readAll, Outline.bindAll] at hkeys ⊢
      have hown : (Outline.bind inputs keys node.read).2.size ≤ 2 ^ 32 :=
        (Outline.prefix_bindAll inputs _ (readAll rest)).length_le.trans hkeys
      rw [bindAll, bind_eq hinputs hslotted.1 hown]
      simp only [bindAll_eq hinputs hslotted.2 hkeys]

end

/-- The binding stream of a root, which is the one element that has no slot. -/
theorem bindStream_eq {inputs : Registry Placeholder} (hinputs : inputs.size ≤ 2 ^ 32)
    {root : Scratch} (hroot : root.slot = 0)
    (hslotted : Outline.isSlottedAll false root.read.children = true)
    (hkeys : (Outline.bind inputs .empty root.read).2.size ≤ 2 ^ 32) :
    bindStream inputs root = Outline.bindStream inputs root.read := by
  cases root with
  | element tag properties bound mounts flags slot children =>
      obtain rfl : slot = 0 := hroot
      rw [bindStream, Outline.bindStream]
      rw [read, Outline.bind] at hkeys ⊢
      simp only [← pos_iff_toNat] at hkeys ⊢
      rw [bind]
      by_cases hbound : 0 < bound
      · simp only [if_pos hbound] at hkeys ⊢
        have hproperties : (Outline.bindProperties inputs .empty properties).2.size ≤ 2 ^ 32 :=
          (Outline.prefix_bindAll inputs _ (readAll children)).length_le.trans hkeys
        simp only [bindProperties_eq hinputs hproperties, bindAll_eq hinputs hslotted hkeys]
        rfl
      · simp only [if_neg hbound] at hkeys ⊢
        rw [bindAll_eq hinputs hslotted hkeys]
  | text value flags slot => rfl
  | placeholder target flags => rfl

/-! ## Insertions -/

/-- The node right behind a placeholder has been given a slot, unless it is a placeholder itself. -/
theorem selectNext_eq {nodes : List Scratch}
    (hslotted : Outline.isSlottedAll true (readAll nodes) = true) :
    selectNext nodes = Outline.selectNext (readAll nodes) := by
  cases nodes with
  | nil => rfl
  | cons neighbour rest =>
      rw [readAll, Outline.isSlottedAll, Bool.and_eq_true] at hslotted
      rw [selectNext, readAll, Outline.selectNext, slot?_read]
      cases neighbour with
      | placeholder target flags => rfl
      | text value flags slot =>
          have hgiven : given? slot = some slot.toNat :=
            given?_of_isSome (by simpa [read, Outline.isSlotted] using hslotted.1)
          rw [Scratch.slot, hgiven]
          rfl
      | element tag properties bound mounts flags slot children =>
          have hown := hslotted.1
          rw [read, Outline.isSlotted, Bool.and_eq_true] at hown
          have hgiven : given? slot = some slot.toNat :=
            given?_of_isSome (by simpa using hown.1)
          rw [Scratch.slot, hgiven]
          rfl

theorem mountChildren_eq {inputs : Registry Placeholder} (hinputs : inputs.size ≤ 2 ^ 32)
    {behind : Bool} {nodes : List Scratch}
    (hslotted : Outline.isSlottedAll behind (readAll nodes) = true) :
    mountChildren inputs nodes = Outline.mountChildren inputs (readAll nodes) := by
  induction nodes generalizing behind with
  | nil => rfl
  | cons node rest ih =>
      rw [readAll, Outline.isSlottedAll, Bool.and_eq_true] at hslotted
      cases node with
      | placeholder target flags =>
          rw [mountChildren, readAll, read, Outline.mountChildren, ← Registry.word?_eq hinputs,
            ih hslotted.2, selectNext_eq hslotted.2]
          cases inputs.word? target <;> rfl
      | text value flags slot => exact ih hslotted.2
      | element tag properties bound mounts flags slot children => exact ih hslotted.2

mutual

/-- The insertions into a node below the root, if it has been given the slots that it needs. -/
theorem mount_eq {inputs : Registry Placeholder} (hinputs : inputs.size ≤ 2 ^ 32) {behind : Bool} :
    ∀ {node : Scratch}, node.read.isSlotted behind = true →
      mount inputs false node = Outline.mount inputs node.read
  | element tag properties bound mounts flags slot children, hslotted => by
      rw [read, Outline.isSlotted, Bool.and_eq_true, patched_eq] at hslotted
      obtain ⟨hown, hchildren⟩ := hslotted
      rw [read, Outline.mount, mount, mountChildren_eq hinputs hchildren,
        mountAll_eq hinputs hchildren]
      simp only [← pos_iff_toNat]
      by_cases hmounts : 0 < mounts
      · have hgiven : given? slot = some slot.toNat :=
          given?_of_isSome (by simpa [hmounts] using hown)
        rw [if_pos hmounts, if_pos hmounts, hgiven]
        rfl
      · rw [if_neg hmounts, if_neg hmounts]
  | text value flags slot, _ => rfl
  | placeholder target flags, _ => rfl

theorem mountAll_eq {inputs : Registry Placeholder} (hinputs : inputs.size ≤ 2 ^ 32)
    {behind : Bool} :
    ∀ {nodes : List Scratch}, Outline.isSlottedAll behind (readAll nodes) = true →
      mountAll inputs nodes = Outline.mountAll inputs (readAll nodes)
  | [], _ => rfl
  | node :: rest, hslotted => by
      rw [readAll, Outline.isSlottedAll, Bool.and_eq_true] at hslotted
      rw [mountAll, readAll, Outline.mountAll, mount_eq hinputs hslotted.1,
        mountAll_eq hinputs hslotted.2]

end

/-- The mounting stream of a root, which is the one element that has no slot. -/
theorem mountStream_eq {inputs : Registry Placeholder} (hinputs : inputs.size ≤ 2 ^ 32)
    {root : Scratch} (hroot : root.slot = 0)
    (hslotted : Outline.isSlottedAll false root.read.children = true) :
    mountStream inputs root = Outline.mountStream inputs root.read := by
  cases root with
  | element tag properties bound mounts flags slot children =>
      obtain rfl : slot = 0 := hroot
      rw [mountStream, Outline.mountStream, read, Outline.mount, mount,
        mountChildren_eq hinputs hslotted, mountAll_eq hinputs hslotted]
      simp only [← pos_iff_toNat]
      rfl
  | text value flags slot => rfl
  | placeholder target flags => rfl

end Scratch

/-! ## Root elements -/

namespace Outline

theorem size_bindProperties_le (inputs : Registry Placeholder) (keys : Registry String)
    (properties : List Property) :
    (bindProperties inputs keys properties).2.size ≤ keys.size + properties.length := by
  induction properties generalizing keys with
  | nil => exact Nat.le_refl _
  | cons p rest ih =>
      rw [bindProperties, List.length_cons]
      split
      · have hrest := ih keys
        omega
      · rename_i input hinput
        have hrest := ih (bindProperty keys p input).2
        have hown : (bindProperty keys p input).2.size ≤ keys.size + 1 := by
          rw [bindProperty]
          split
          · exact Nat.le_succ _
          · exact keys.size_insert_le p.key
          · exact Nat.le_succ _
        simp only
        omega

theorem size_bind_element_le {inputs : Registry Placeholder} {children : List Outline} {count : Nat}
    (hchildren : ∀ keys, (bindAll inputs keys children).2.size ≤ keys.size + count)
    (keys : Registry String) (tag : String) (properties : List Property) (marks : Marks)
    (following : Following) (slot : Option Nat) :
    (bind inputs keys (element tag properties marks following slot children)).2.size ≤
      keys.size + (properties.length + count) := by
  rw [bind]
  split
  · have hown := size_bindProperties_le inputs keys properties
    have hinner := hchildren (bindProperties inputs keys properties).2
    simp only
    omega
  · have hinner := hchildren keys
    omega

mutual

theorem size_bind_le (inputs : Registry Placeholder) (behind : Bool) (next : Nat)
    (following : Following) (keys : Registry String) :
    ∀ node : Node, (bind inputs keys (number behind next (ofNode following node)).1).2.size ≤
      keys.size + node.propertyCount
  | .element tag properties children => by
      rw [number_element, Node.propertyCount]
      exact size_bind_element_le (fun keys => size_bindAll_le inputs false _ keys children) ..
  | .text value => by
      rw [number_text]
      exact Nat.le_refl _
  | .placeholder target => Nat.le_refl _

/-- There are no more keys than properties. -/
theorem size_bindAll_le (inputs : Registry Placeholder) (behind : Bool) (next : Nat)
    (keys : Registry String) :
    ∀ nodes : List Node,
      (bindAll inputs keys (numberAll behind next (ofNodes nodes).1).1).2.size ≤
        keys.size + Node.propertyCountAll nodes
  | [] => Nat.le_refl _
  | node :: rest => by
      have hown := size_bind_le inputs behind next (ofNodes rest).2 keys node
      rw [numberAll_cons, bindAll, Node.propertyCountAll]
      have hrest := size_bindAll_le inputs node.isPlaceholder
        (number behind next (ofNode (ofNodes rest).2 node)).2
        (bind inputs keys (number behind next (ofNode (ofNodes rest).2 node)).1).2 rest
      simp only at hrest ⊢
      omega

end

end Outline

namespace Element

variable {e : Element} (h : e.toNode.FitsWords)

include h

theorem length_walkStream_lt : e.outline.walkStream.length < 2 ^ 32 := by
  have hle := Outline.length_walk_le false false
    (Outline.numberAll false 1 (Outline.ofNodes e.children).1).1
  have hnodes := h.nodes
  rw [Outline.sizeAll_numberAll, Outline.sizeAll_ofNodes] at hle
  rw [toNode, Node.nodeCount] at hnodes
  rw [outline_eq, Outline.walkStream]
  omega

theorem trace_scratch : e.scratch.trace [] = e.outline.traceStream := by
  have hlength := length_walkStream_lt h
  rw [← (numberRoot_reads h).1] at hlength ⊢
  exact Scratch.trace_eq hlength

theorem walk_scratch : e.scratch.walk = e.outline.walkStream := by
  rw [← Scratch.map_snd_trace [], trace_scratch h, Outline.map_snd_traceStream]

omit h in
theorem slot_scratch (e : Element) : e.scratch.slot = 0 := by
  rw [scratch, toNode, Scratch.ofNode]
  rfl

omit h in
theorem isSlottedAll_outline (e : Element) :
    Outline.isSlottedAll false e.outline.children = true := by
  rw [outline_eq]
  exact Outline.isSlottedAll_numberAll false 1 _

theorem bindStream_scratch :
    e.scratch.bindStream e.toNode.placeholders = e.outline.bindStream e.toNode.placeholders := by
  have hread := (numberRoot_reads h).1
  have hslotted := e.isSlottedAll_outline
  have hkeys : (Outline.bind e.toNode.placeholders .empty e.outline).2.size ≤ 2 ^ 32 := by
    have hproperties := h.properties
    rw [toNode, Node.propertyCount] at hproperties
    rw [outline_eq]
    refine (Outline.size_bind_element_le
      (fun keys => Outline.size_bindAll_le _ false 1 keys e.children) ..).trans ?_
    simp only [Registry.empty, Registry.size, List.length_nil]
    omega
  rw [← hread] at hkeys hslotted ⊢
  exact Scratch.bindStream_eq e.toNode.size_placeholders_le e.slot_scratch hslotted hkeys

theorem mountStream_scratch :
    e.scratch.mountStream e.toNode.placeholders = e.outline.mountStream e.toNode.placeholders := by
  have hread := (numberRoot_reads h).1
  have hslotted := e.isSlottedAll_outline
  rw [← hread] at hslotted ⊢
  exact Scratch.mountStream_eq e.toNode.size_placeholders_le e.slot_scratch hslotted

end Element

end DomTemplate

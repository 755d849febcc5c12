import Mathlib
import DomTemplate.Proofs.Outline.Mount
import DomTemplate.Proofs.BindingRun

/-!
# The mounting stream runs

Where the slots hold the nodes they were given to, the mounting stream of an outline fills the
placeholders of each element from right to left, and each insertion goes right before what stands
behind its placeholder.
-/

namespace DomTemplate

variable {ν : Type}

/-- Where insertions that have been made under one parent leave the mounting stream. -/
def Insertions.mounting (done : Insertions ν) (parent : NodeId) (page : Dom NodeId ν) :
    Mounting ν where
  parent
  next := done.next
  count := done.count
  page := page.amendMany (done.changes.map fun c => (parent, c))

theorem Insertions.page_mounting_add (done : Insertions ν) (nodes : List ν) (parent : NodeId)
    (page : Dom NodeId ν) :
    ((done.add nodes).mounting parent page).page =
      (done.mounting parent page).page.amend parent (.insert done.next done.count nodes) := by
  simp only [mounting, add, List.map_append, Dom.amendMany_append]
  rfl

namespace Scope

/-! ## Single operations -/

theorem mountStep_setNext (scope : Scope ν) {slot : Nat} {id : NodeId}
    (hslot : scope.slots[slot]? = some id) (state : Mounting ν) :
    scope.mountStep state (.setNext slot) = .ok { state with next := some id } := by
  simp [mountStep, Scope.slot, hslot, bind, Except.bind]

theorem mountStep_setParent (scope : Scope ν) {slot : Nat} {id : NodeId}
    (hslot : scope.slots[slot]? = some id) (state : Mounting ν) :
    scope.mountStep state (.setParent slot) = .ok { state with parent := id, next := none } := by
  simp [mountStep, Scope.slot, hslot, bind, Except.bind]

theorem mountStep_child (scope : Scope ν) {input : Nat} {target : Placeholder} {parent : NodeId}
    {page : Dom NodeId ν} {done : Insertions ν}
    (hinput : scope.inputs[input]? = some target)
    (hpage : (done.mounting parent page).page.accepts parent done.next = true) :
    scope.mountStep (done.mounting parent page) (.child input) =
      .ok ((done.add (scope.fill target)).mounting parent page) := by
  have hadd := done.page_mounting_add (scope.fill target) parent page
  have hstep : scope.mountStep (done.mounting parent page) (.child input) =
      .ok { done.mounting parent page with
        next := if (scope.fill target).isEmpty then done.next else some (.mounted done.count)
        count := done.count + (scope.fill target).length
        page := (done.mounting parent page).page.amend parent
          (.insert done.next done.count (scope.fill target)) } := by
    simp only [mountStep, value, hinput, bind, Except.bind]
    exact if_pos hpage
  rw [hstep, ← hadd]
  rfl

/-! ## The children of one element -/

variable {scope : Scope ν} {inputs : Registry Placeholder}

/-- Behind a placeholder the neighbour is selected, or is the current one already. -/
theorem run_selectNext {place : List Nat} {index next count : Nat} {nodes : List Node}
    (hslots : scope.Finds
      (Outline.slottedAll place index (Outline.numberAll true next (Outline.ofNodes nodes).1).1))
    (state : Mounting ν)
    (hnext : (∀ node ∈ nodes.head?, node.isPlaceholder = true) →
      state.next = (Node.insertions scope.fill place index count nodes).next) :
    (Outline.selectNext (Outline.numberAll true next (Outline.ofNodes nodes).1).1).foldlM
        scope.mountStep state =
      .ok { state with next := (Node.insertions scope.fill place index count nodes).next } := by
  cases nodes with
  | nil =>
      rw [← hnext (by simp)]
      rfl
  | cons node rest =>
      rw [Outline.numberAll_cons] at hslots ⊢
      cases hsolid : node.isPlaceholder with
      | true =>
          have hnone : (Outline.number true next
              (.ofNode (Outline.ofNodes rest).2 node)).1.slot? = none := by
            cases node <;> simp_all [Node.isPlaceholder, Outline.number_placeholder, Outline.slot?]
          rw [← hnext (by simp [hsolid]), Outline.selectNext, hnone]
          rfl
      | false =>
          have hown : (Outline.number true next
              (.ofNode (Outline.ofNodes rest).2 node)).1.slot? = some next := by
            rw [Outline.slot?_number]
            cases node <;> simp_all [Node.isPlaceholder, Node.needsSlot, Outline.slotIf]
          have hslot := hslots.cons.1.own hown
          rw [Outline.selectNext, hown, Option.toList_some, List.map_singleton, List.foldlM_cons,
            scope.mountStep_setNext hslot,
            Node.insertions_cons_of_not_placeholder scope.fill place index count hsolid]
          rfl

theorem mountChildren_cons_of_not_placeholder {outline : Outline}
    (h : outline.isPlaceholder = false) (rest : List Outline) :
    Outline.mountChildren inputs (outline :: rest) = Outline.mountChildren inputs rest := by
  cases outline with
  | element tag properties marks following slot children => rfl
  | text value following slot => rfl
  | placeholder target => simp [Outline.isPlaceholder] at h

/-- The insertions among the children of one element from number `index` on.  The neighbour that the
stream has selected is the right one only in front of a placeholder: a constant child is selected
when the placeholder before it is inserted, and not earlier. -/
theorem run_mountChildren (hinputs : scope.inputs = inputs.entries) {place : List Nat}
    {tag : String} {attributes : Attributes} {log : List (LogEntry ν)}
    {copies : List (Dom NodeId ν)} {page : Dom NodeId ν}
    (hpage : page.Covers [.element (.cloned place) tag attributes log copies]) (count : Nat)
    (nodes : List Node) (index : Nat) (behind : Bool) (next : Nat)
    (hslots : scope.Finds (Outline.slottedAll place index
      (Outline.numberAll behind next (Outline.ofNodes nodes).1).1))
    (htargets : ∀ target ∈ Node.targetsAll nodes, target ∈ inputs.entries)
    (hcopies : Node.bareAll place index nodes ⊆ copies) :
    let done := Node.insertions scope.fill place index count nodes
    (done.mounting (.cloned place) page).page.accepts (.cloned place) done.next = true ∧
      ∃ last, ((∀ node ∈ nodes.head?, node.isPlaceholder = true) → last = done.next) ∧
        (Outline.mountChildren inputs
            (Outline.numberAll behind next (Outline.ofNodes nodes).1).1).foldlM scope.mountStep
            ⟨.cloned place, none, count, page⟩ =
          .ok { done.mounting (.cloned place) page with next := last } := by
  induction nodes generalizing index behind next with
  | nil => exact ⟨hpage.accepts (by simp [Node.insertions]), none, fun _ => rfl, rfl⟩
  | cons node rest ih =>
      rw [Outline.numberAll_cons] at hslots ⊢
      rw [Node.bareAll] at hcopies
      obtain ⟨haccepts, last, hlast, hrun⟩ := ih (index + 1) node.isPlaceholder _
        hslots.cons.2 (fun t h => htargets t (List.mem_append_right _ h))
        (fun copy h => hcopies (List.mem_append_right _ h))
      cases hsolid : node.isPlaceholder with
      | false =>
          obtain ⟨copy, hcopy, hid⟩ :=
            Node.bare_of_not_placeholder (ν := ν) (place ++ [index]) hsolid
          have hown : copy.id ∈ copies.map Dom.id :=
            List.mem_map_of_mem (hcopies (by simp [hcopy]))
          rw [hid] at hown
          rw [Node.insertions_cons_of_not_placeholder scope.fill place index count hsolid]
          refine ⟨(hpage.amendMany _).accepts (by simpa using hown), last, ?_, ?_⟩
          · intro hhead
            simp [hsolid] at hhead
          · rw [hsolid] at hrun
            rw [mountChildren_cons_of_not_placeholder
              ((Outline.isPlaceholder_number _ _ _).trans
                ((Outline.isPlaceholder_ofNode _ _).trans hsolid)), hrun]
            rfl
      | true =>
          obtain ⟨target, rfl⟩ := node.isPlaceholder_iff.mp hsolid
          obtain ⟨input, hinput, hvalue⟩ :=
            exists_input hinputs (htargets target List.mem_cons_self)
          have hselect := run_selectNext hslots.cons.2
            { (Node.insertions scope.fill place (index + 1) count rest).mounting
              (.cloned place) page with next := last } hlast
          -- With its neighbour selected the placeholder is inserted where the page accepts it.
          refine ⟨?_, _, fun _ => rfl, ?_⟩
          · rw [Node.insertions, Insertions.page_mounting_add]
            exact Dom.accepts_insert haccepts _ _
          · rw [Outline.number_placeholder, Outline.mountChildren]
            simp only [hinput]
            refine foldlM_append_of_ok (foldlM_append_of_ok hrun hselect) ?_
            rw [List.foldlM_cons]
            exact congrArg (· >>= _) (scope.mountStep_child hvalue haccepts)

/-! ## Whole streams -/

/-- The changes of an element by the mounting stream. -/
def Filled (fill : Placeholder → List ν) (place : List Nat) (_ : List Property)
    (children : List Node) (changes : List (Change ν)) : Prop :=
  ∃ count, changes = (Node.insertions fill place 0 count children).changes

/-- The mounting stream of an element, given that of its children, once it is the current parent. -/
theorem run_mountElement (hinputs : scope.inputs = inputs.entries) {place : List Nat} {tag : String}
    {properties : List Property} {children : List Node} {following : Following}
    {slot : Option Nat} {first : Nat} {state : Mounting ν}
    (hselect : 0 < children.countP Node.isPlaceholder →
      (slot.toList.map MountOp.setParent).foldlM scope.mountStep state =
        .ok { state with parent := .cloned place, next := none })
    (hslots : scope.Finds (Outline.slottedAll place 0
      (Outline.numberAll false first (Outline.ofNodes children).1).1))
    (htargets : ∀ target ∈ Node.targetsAll children, target ∈ inputs.entries)
    (hpage : state.page.Covers ((Node.element tag properties children).bare place))
    (hinner : ∀ state : Mounting ν, state.page.Covers (Node.bareAll place 0 children) →
      ∃ journal last, Node.ChronicleAll (Filled scope.fill) place 0 children journal ∧
        (Outline.mountAll inputs (Outline.numberAll false first
          (Outline.ofNodes children).1).1).foldlM scope.mountStep state = .ok last ∧
        last.page = state.page.amendMany journal) :
    ∃ journal last,
      (Node.element tag properties children).Chronicle (Filled scope.fill) place journal ∧
        ((Outline.element tag properties (Outline.marksOf properties children) following slot
          (Outline.numberAll false first (Outline.ofNodes children).1).1).mount inputs).foldlM
            scope.mountStep state = .ok last ∧
        last.page = state.page.amendMany journal := by
  rw [Outline.mount]
  by_cases hmounts : 0 < (Outline.marksOf properties children).mounts
  · obtain ⟨-, last, -, hown⟩ := run_mountChildren hinputs hpage state.count children 0 false first
      hslots htargets (List.Subset.refl _)
    obtain ⟨journal, final, hjournal, hrun, hfinal⟩ := hinner
      { (Node.insertions scope.fill place 0 state.count children).mounting (.cloned place)
        state.page with next := last } (hpage.children.amendMany _)
    refine ⟨_, final, ⟨_, journal, ⟨state.count, rfl⟩, hjournal, rfl⟩, ?_, ?_⟩
    · rw [if_pos hmounts]
      exact foldlM_append_of_ok (foldlM_append_of_ok (hselect hmounts) hown) hrun
    · rw [Dom.amendMany_append]
      exact hfinal
  · obtain ⟨journal, final, hjournal, hrun, hfinal⟩ := hinner state hpage.children
    have hnone : children.any Node.isPlaceholder = false := by
      simpa [Outline.marksOf, List.countP_eq_zero] using hmounts
    have hchanges := Node.insertions_of_no_placeholder scope.fill place 0 0 hnone
    refine ⟨journal, final, ⟨[], journal, ⟨0, hchanges.symm⟩, hjournal, rfl⟩, ?_, hfinal⟩
    rw [if_neg hmounts]
    exact hrun

mutual

/-- The mounting stream of a node below the root. -/
theorem run_mount (hinputs : scope.inputs = inputs.entries) (place : List Nat) (behind : Bool)
    (next : Nat) (following : Following) :
    ∀ {node : Node} (state : Mounting ν),
      let outline := (Outline.number behind next (.ofNode following node)).1
      scope.Finds (outline.slotted place) → (∀ target ∈ node.targets, target ∈ inputs.entries) →
      state.page.Covers (node.bare place) →
      ∃ journal last, node.Chronicle (Filled scope.fill) place journal ∧
        (outline.mount inputs).foldlM scope.mountStep state = .ok last ∧
        last.page = state.page.amendMany journal
  | .element tag properties children, state => by
      rw [Outline.number_element]
      intro outline hslots htargets hpage
      have hbelow := hslots.children
      have hinner := fun target h => htargets target (List.mem_append_right _ h)
      refine run_mountElement hinputs ?_ hbelow hinner hpage
        fun state => run_mountAll hinputs place 0 false _ state hbelow hinner
      intro hmounts
      have hneeded : (behind || Node.patched properties children) = true := by
        simp [Node.patched, List.countP_pos_iff.mp hmounts]
      have hslot : scope.slots[next]? = some (.cloned place) :=
        hslots.own (by simp [outline, hneeded, Outline.slotIf, Outline.slot?])
      simp only [hneeded, Outline.slotIf, if_true, Option.toList_some, List.map_cons,
        List.map_nil, List.foldlM_cons, scope.mountStep_setParent hslot]
      rfl
  | .text value, state => fun _ _ _ => ⟨[], state, rfl, by cases behind <;> rfl, rfl⟩
  | .placeholder target, state => fun _ _ _ => ⟨[], state, rfl, rfl, rfl⟩

theorem run_mountAll (hinputs : scope.inputs = inputs.entries) (place : List Nat) (index : Nat)
    (behind : Bool) (next : Nat) :
    ∀ {nodes : List Node} (state : Mounting ν),
      let outlines := (Outline.numberAll behind next (Outline.ofNodes nodes).1).1
      scope.Finds (Outline.slottedAll place index outlines) →
      (∀ target ∈ Node.targetsAll nodes, target ∈ inputs.entries) →
      state.page.Covers (Node.bareAll place index nodes) →
      ∃ journal last, Node.ChronicleAll (Filled scope.fill) place index nodes journal ∧
        (Outline.mountAll inputs outlines).foldlM scope.mountStep state = .ok last ∧
        last.page = state.page.amendMany journal
  | [], state => fun _ _ _ => ⟨[], state, rfl, rfl, rfl⟩
  | node :: rest, state => by
      rw [Outline.numberAll_cons]
      intro outlines hslots htargets hpage
      obtain ⟨hcopy, hcopies⟩ := hpage.append
      rw [Node.targetsAll] at htargets
      -- The children further to the right have their turn first.
      obtain ⟨more, middle, hmore, hrest, hmiddle⟩ := run_mountAll hinputs place (index + 1)
        node.isPlaceholder _ state hslots.cons.2
        (fun t h => htargets t (List.mem_append_right _ h)) hcopies
      have hcovers := hcopy.amendMany more
      rw [← hmiddle] at hcovers
      obtain ⟨own, last, hown, hrun, hlast⟩ := run_mount hinputs (place ++ [index]) behind next
        (Outline.ofNodes rest).2 middle hslots.cons.1
        (fun t h => htargets t (List.mem_append_left _ h)) hcovers
      refine ⟨more ++ own, last, ⟨own, more, hown, hmore, .inr rfl⟩,
        foldlM_append_of_ok hrest hrun, ?_⟩
      rw [hlast, hmiddle, Dom.amendMany_append]

end

end Scope

end DomTemplate

import Mathlib
import DomTemplate.Proofs.Keys
import DomTemplate.Proofs.Outcome
import DomTemplate.Proofs.Page.Rendering
import DomTemplate.Proofs.Slots

/-!
# The binding stream runs

Where the slots hold the nodes they were given to, the binding stream of an outline logs at each
element the values of its bound properties, in the order of the properties and where they belong.
-/

namespace DomTemplate

variable {ν : Type}

/-! ## One property -/

/-- Where a bound value goes by its target. -/
theorem Property.destination_eq (p : Property) :
    p.destination =
      match Target.of p.kind p.key with
      | .common property => .common property.name
      | .keyed binding => .keyed binding p.key
      | .directive => .directive := by
  obtain ⟨kind, key, value⟩ := p
  cases kind <;> simp only [Target.of, Property.destination] <;> split <;>
    simp_all [CommonProperty.name]

namespace Scope

/-- The slots of some nodes hold them. -/
def Finds (scope : Scope ν) (slotted : List (List Nat × Nat)) : Prop :=
  ∀ place slot, (place, slot) ∈ slotted → scope.slots[slot]? = some (.cloned place)

theorem Finds.own {scope : Scope ν} {place : List Nat} {outline : Outline}
    (h : scope.Finds (outline.slotted place)) {slot : Nat} (hslot : outline.slot? = some slot) :
    scope.slots[slot]? = some (.cloned place) :=
  h place slot (Outline.mem_slotted_self place hslot)

theorem Finds.children {scope : Scope ν} {place : List Nat} {outline : Outline}
    (h : scope.Finds (outline.slotted place)) :
    scope.Finds (Outline.slottedAll place 0 outline.children) := by
  rw [Outline.slotted_eq] at h
  exact fun other slot hmem => h other slot (List.mem_append_right _ hmem)

theorem Finds.cons {scope : Scope ν} {place : List Nat} {index : Nat} {outline : Outline}
    {rest : List Outline} (h : scope.Finds (Outline.slottedAll place index (outline :: rest))) :
    scope.Finds (outline.slotted (place ++ [index])) ∧
      scope.Finds (Outline.slottedAll place (index + 1) rest) := by
  rw [Outline.slottedAll_cons] at h
  constructor
  · exact fun other slot hmem => h other slot (List.mem_append_left _ hmem)
  · exact fun other slot hmem => h other slot (List.mem_append_right _ hmem)

theorem bindStep_setNode (scope : Scope ν) {slot : Nat} {id : NodeId}
    (hslot : scope.slots[slot]? = some id) (state : NodeId × Dom NodeId ν) :
    scope.bindStep state (.setNode slot) = .ok (id, state.2) := by
  simp [bindStep, Scope.slot, hslot, bind, Except.bind]

theorem record_eq_ok (scope : Scope ν) {current : NodeId} {page : Dom NodeId ν}
    {destination : Destination} {input : Nat} {target : Placeholder}
    (hinput : scope.inputs[input]? = some target) (hpage : page.accepts current none = true) :
    scope.record current page destination input =
      .ok (current, page.amend current (.record ⟨destination, scope.fill target⟩)) := by
  simp [record, value, hinput, hpage, bind, Except.bind]

/-- The operation of a bound property logs its value. -/
theorem bindStep_bindProperty (scope : Scope ν) {keys : Registry String} {p : Property}
    {current : NodeId} {page : Dom NodeId ν} {input : Nat} {target : Placeholder}
    (hinput : scope.inputs[input]? = some target)
    (hkeys : (Outline.bindProperty keys p input).2.entries <+: scope.keys)
    (hpage : page.accepts current none = true) :
    scope.bindStep (current, page) (Outline.bindProperty keys p input).1 =
      .ok (current, page.amend current (.record ⟨p.destination, scope.fill target⟩)) := by
  rw [p.destination_eq]
  cases htarget : Target.of p.kind p.key with
  | common property =>
      simp only [Outline.bindProperty, htarget, bindStep]
      exact scope.record_eq_ok hinput hpage
  | keyed binding =>
      simp only [Outline.bindProperty, htarget] at hkeys
      obtain ⟨i, hi⟩ := keys.exists_index?_insert p.key
      have hname : scope.keys[i]? = some p.key := by
        obtain ⟨hlt, hentry⟩ := List.getElem?_eq_some_iff.mp (Registry.getElem?_of_index? hi)
        rw [List.prefix_iff_getElem?.mp hkeys i hlt, hentry]
      simp only [Outline.bindProperty, htarget, hi, Option.getD_some, bindStep, key, hname]
      exact scope.record_eq_ok hinput hpage
  | directive =>
      simp only [Outline.bindProperty, htarget, bindStep]
      exact scope.record_eq_ok hinput hpage

/-! ## Whole streams -/

variable {scope : Scope ν} {inputs : Registry Placeholder}

theorem exists_input (hinputs : scope.inputs = inputs.entries) {target : Placeholder}
    (h : target ∈ inputs.entries) :
    ∃ input, inputs.index? target = some input ∧ scope.inputs[input]? = some target := by
  obtain ⟨input, hinput⟩ := Registry.exists_index? h
  exact ⟨input, hinput, hinputs ▸ Registry.getElem?_of_index? hinput⟩

theorem run_bindProperties (hinputs : scope.inputs = inputs.entries) {place : List Nat}
    {tag : String} {attributes : Attributes} {log : List (LogEntry ν)}
    {children : List (Dom NodeId ν)} :
    ∀ {properties : List Property} {keys : Registry String} {page : Dom NodeId ν},
      (∀ target ∈ properties.filterMap Property.target?, target ∈ inputs.entries) →
      (Outline.bindProperties inputs keys properties).2.entries <+: scope.keys →
      page.Covers [.element (.cloned place) tag attributes log children] →
      (Outline.bindProperties inputs keys properties).1.foldlM scope.bindStep
          (.cloned place, page) =
        .ok (.cloned place, page.amendMany
          (((properties.filterMap (Property.entry? scope.fill)).map Change.record).map
            fun c => (.cloned place, c)))
  | [], keys, page, _, _, _ => rfl
  | p :: rest, keys, page, htargets, hkeys, hpage => by
      cases htarget : p.target? with
      | none =>
          have hentry : p.entry? scope.fill = none := by simp [Property.entry?, htarget]
          rw [Outline.bindProperties, htarget] at hkeys ⊢
          rw [List.filterMap_cons_none hentry]
          rw [List.filterMap_cons_none htarget] at htargets
          exact run_bindProperties hinputs htargets hkeys hpage
      | some target =>
          have hentry : p.entry? scope.fill = some ⟨p.destination, scope.fill target⟩ := by
            simp [Property.entry?, htarget]
          rw [List.filterMap_cons_some htarget] at htargets
          obtain ⟨input, hinput, hvalue⟩ :=
            exists_input hinputs (htargets target List.mem_cons_self)
          have hcase : p.target?.bind inputs.index? = some input := by simp [htarget, hinput]
          simp only [Outline.bindProperties, hcase] at hkeys ⊢
          have haccepts : page.accepts (.cloned place) none = true := hpage.accepts (by simp)
          have hstep := scope.bindStep_bindProperty hvalue
            ((Outline.prefix_bindProperties inputs _ rest).trans hkeys) haccepts
          have hrest := run_bindProperties hinputs
            (fun t ht => htargets t (List.mem_cons_of_mem _ ht)) hkeys
            (hpage.amend (.cloned place) (.record ⟨p.destination, scope.fill target⟩))
          rw [List.foldlM_cons, hstep, List.filterMap_cons_some hentry]
          exact hrest

/-- The changes of an element by the binding stream. -/
def Logged (fill : Placeholder → List ν) (_ : List Nat) (properties : List Property)
    (_ : List Node) (changes : List (Change ν)) : Prop :=
  changes = (properties.filterMap (Property.entry? fill)).map .record

theorem filterMap_entry?_eq_nil (fill : Placeholder → List ν) {properties : List Property}
    (h : properties.countP Property.isDynamic = 0) :
    properties.filterMap (Property.entry? fill) = [] := by
  rw [List.filterMap_eq_nil_iff]
  intro p hp
  have hstatic : p.isDynamic = false := by simpa using List.countP_eq_zero.mp h p hp
  simpa [Property.entry?, Property.isDynamic] using hstatic

/-- The binding stream of an element, given that of its children, once it is the current one. -/
theorem run_bindElement (hinputs : scope.inputs = inputs.entries) {place : List Nat} {tag : String}
    {properties : List Property} {children : List Node} {following : Following}
    {slot : Option Nat} {outlines : List Outline} {keys : Registry String} {current : NodeId}
    {page : Dom NodeId ν}
    (hselect : 0 < properties.countP Property.isDynamic →
      (slot.toList.map BindOp.setNode).foldlM scope.bindStep (current, page) =
        .ok (.cloned place, page))
    (htargets : ∀ target ∈ properties.filterMap Property.target?, target ∈ inputs.entries)
    (hkeys : ((Outline.element tag properties (Outline.marksOf properties children) following slot
      outlines).bind inputs keys).2.entries <+: scope.keys)
    (hpage : page.Covers ((Node.element tag properties children).bare place))
    (hinner : ∀ {keys : Registry String} {current : NodeId} {page : Dom NodeId ν},
      (Outline.bindAll inputs keys outlines).2.entries <+: scope.keys →
      page.Covers (Node.bareAll place 0 children) →
      ∃ journal last, Node.ChronicleAll (Logged scope.fill) place 0 children journal ∧
        (Outline.bindAll inputs keys outlines).1.foldlM scope.bindStep (current, page) =
          .ok (last, page.amendMany journal)) :
    ∃ journal last,
      (Node.element tag properties children).Chronicle (Logged scope.fill) place journal ∧
        ((Outline.element tag properties (Outline.marksOf properties children) following slot
            outlines).bind inputs keys).1.foldlM scope.bindStep (current, page) =
          .ok (last, page.amendMany journal) := by
  by_cases hbound : 0 < (Outline.marksOf properties children).bound
  · simp only [Outline.bind, if_pos hbound] at hkeys ⊢
    have hown := run_bindProperties hinputs htargets
      ((Outline.prefix_bindAll inputs _ outlines).trans hkeys) hpage
    obtain ⟨journal, last, hjournal, hrun⟩ := hinner hkeys (hpage.children.amendMany _)
    refine ⟨_, last, ⟨_, journal, rfl, hjournal, rfl⟩, ?_⟩
    rw [Dom.amendMany_append]
    exact foldlM_append_of_ok (foldlM_append_of_ok (hselect hbound) hown) hrun
  · simp only [Outline.bind, if_neg hbound] at hkeys ⊢
    obtain ⟨journal, last, hjournal, hrun⟩ := hinner hkeys hpage.children
    have hnone := filterMap_entry?_eq_nil scope.fill (Nat.eq_zero_of_not_pos hbound)
    refine ⟨journal, last, ⟨[], journal, ?_, hjournal, rfl⟩, hrun⟩
    rw [Logged, hnone, List.map_nil]

mutual

/-- The binding stream of a node below the root. -/
theorem run_bind (hinputs : scope.inputs = inputs.entries) (place : List Nat) (behind : Bool)
    (next : Nat) (following : Following) :
    ∀ {node : Node} {keys : Registry String} {current : NodeId} {page : Dom NodeId ν},
      let outline := (Outline.number behind next (.ofNode following node)).1
      scope.Finds (outline.slotted place) → (∀ target ∈ node.targets, target ∈ inputs.entries) →
      (outline.bind inputs keys).2.entries <+: scope.keys → page.Covers (node.bare place) →
      ∃ journal last, node.Chronicle (Logged scope.fill) place journal ∧
        (outline.bind inputs keys).1.foldlM scope.bindStep (current, page) =
          .ok (last, page.amendMany journal)
  | .element tag properties children, keys, current, page => by
      rw [Outline.number_element]
      intro outline hslots htargets hkeys hpage
      have hown := fun target h => htargets target (List.mem_append_left _ h)
      have hinner := fun target h => htargets target (List.mem_append_right _ h)
      refine run_bindElement hinputs ?_ hown hkeys hpage ?_
      · intro hbound
        have hneeded : (behind || Node.patched properties children) = true := by
          simp [Node.patched, List.countP_pos_iff.mp hbound]
        have hslot : scope.slots[next]? = some (.cloned place) :=
          hslots.own (by simp [outline, hneeded, Outline.slotIf, Outline.slot?])
        simp only [hneeded, Outline.slotIf, if_true, Option.toList_some, List.map_cons,
          List.map_nil, List.foldlM_cons, scope.bindStep_setNode hslot]
        rfl
      · intro keys current page hkeys hpage
        exact run_bindAll hinputs place 0 false _ hslots.children hinner hkeys hpage
  | .text value, keys, current, page => fun _ _ _ _ => ⟨[], current, rfl, by cases behind <;> rfl⟩
  | .placeholder target, keys, current, page => fun _ _ _ _ => ⟨[], current, rfl, rfl⟩

theorem run_bindAll (hinputs : scope.inputs = inputs.entries) (place : List Nat) (index : Nat)
    (behind : Bool) (next : Nat) :
    ∀ {nodes : List Node} {keys : Registry String} {current : NodeId} {page : Dom NodeId ν},
      let outlines := (Outline.numberAll behind next (Outline.ofNodes nodes).1).1
      scope.Finds (Outline.slottedAll place index outlines) →
      (∀ target ∈ Node.targetsAll nodes, target ∈ inputs.entries) →
      (Outline.bindAll inputs keys outlines).2.entries <+: scope.keys →
      page.Covers (Node.bareAll place index nodes) →
      ∃ journal last, Node.ChronicleAll (Logged scope.fill) place index nodes journal ∧
        (Outline.bindAll inputs keys outlines).1.foldlM scope.bindStep (current, page) =
          .ok (last, page.amendMany journal)
  | [], keys, current, page => by
      intro outlines hslots htargets hkeys hpage
      exact ⟨[], current, rfl, rfl⟩
  | node :: rest, keys, current, page => by
      rw [Outline.numberAll_cons]
      intro outlines hslots htargets hkeys hpage
      obtain ⟨hslot, hslots⟩ := hslots.cons
      obtain ⟨hcopy, hcopies⟩ := hpage.append
      rw [Node.targetsAll] at htargets
      -- The keys in scope are those of the whole stream, and earlier ones are a part of them.
      obtain ⟨own, last, hown, hrun⟩ := run_bind hinputs (place ++ [index]) behind next
        (Outline.ofNodes rest).2 hslot (fun t h => htargets t (List.mem_append_left _ h))
        ((Outline.prefix_bindAll inputs _ _).trans hkeys) hcopy
      obtain ⟨more, final, hmore, hrest⟩ := run_bindAll hinputs place (index + 1)
        node.isPlaceholder _ hslots (fun t h => htargets t (List.mem_append_right _ h)) hkeys
        (hcopies.amendMany own)
      refine ⟨own ++ more, final, ⟨own, more, hown, hmore, .inl rfl⟩, ?_⟩
      rw [Dom.amendMany_append]
      exact foldlM_append_of_ok hrun hrest

end

end Scope

end DomTemplate

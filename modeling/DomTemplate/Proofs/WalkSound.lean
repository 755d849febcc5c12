import Mathlib
import DomTemplate.Proofs.Overlong
import DomTemplate.Proofs.Page.Bare
import DomTemplate.Proofs.Page.Instance

/-!
# The walk finds what it is meant to find

On the clone of a root that words can count, the walk stream runs without a fault, takes out exactly
the separators and records exactly the nodes that have slots, in the order of their slots.

The walk may stop early on a level.  Where it does, nothing to the right needs a slot or has a
separator before or below it, because either no placeholder is left there or no constant node.
-/

namespace DomTemplate

variable {ν : Type}

/-! ## Where nothing is left to do -/

namespace Node

/-- Siblings of which none is constant leave nothing on the page. -/
theorem quiet_of_not_solid (place : List Nat) (index : Nat) (gap : Shell.Gap) (behind : Bool)
    {nodes : List Node} (h : (Outline.ofNodes nodes).2.solid = false) :
    (cloneAll place index gap nodes : List (Dom NodeId ν)) = [] ∧
      (bareAll place index nodes : List (Dom NodeId ν)) = [] ∧
        savedAll place index behind nodes = [] := by
  induction nodes generalizing index gap behind with
  | nil => exact ⟨rfl, rfl, rfl⟩
  | cons node rest ih =>
      simp only [Outline.ofNodes_cons, Outline.extend, Outline.isPlaceholder_ofNode,
        Bool.or_eq_false_iff, Bool.not_eq_false'] at h
      obtain ⟨hrest, hnode⟩ := h
      cases node with
      | placeholder target =>
          obtain ⟨hclone, hbare, hsaved⟩ :=
            ih (index + 1) (gap.past (placeholder target)) true hrest
          simp [cloneAll, clone, bareAll, bare, savedAll, saved, Shell.Gap.separators, isText,
            isPlaceholder, hclone, hbare, hsaved]
      | element tag properties children => simp [isPlaceholder] at hnode
      | text value => simp [isPlaceholder] at hnode

theorem any_isPlaceholder_eq_false {nodes : List Node}
    (h : (Outline.ofNodes nodes).2.dynamic = false) : nodes.any isPlaceholder = false := by
  induction nodes with
  | nil => rfl
  | cons node rest ih =>
      simp only [Outline.ofNodes_cons, Outline.extend, Bool.or_eq_false_iff] at h
      obtain ⟨hrest, hnode⟩ := h
      cases node with
      | placeholder target => simp [Outline.ofNode, Outline.isDynamic] at hnode
      | element tag properties children => simpa [isPlaceholder] using ih hrest
      | text value => simpa [isPlaceholder] using ih hrest

theorem not_patched_of_not_dynamic {properties : List Property} {children : List Node}
    (h : (Outline.marksOf properties children).dynamic = false) :
    patched properties children = false ∧ (Outline.ofNodes children).2.dynamic = false := by
  simp only [Outline.marksOf, Bool.or_eq_false_iff, decide_eq_false_iff_not,
    List.countP_pos_iff, not_exists, not_and] at h
  obtain ⟨hbound, hchildren⟩ := h
  refine ⟨?_, hchildren⟩
  rw [patched, any_isPlaceholder_eq_false hchildren, Bool.or_false, List.any_eq_false]
  exact hbound

mutual

/-- A node without dynamic content has no separators and needs no slots. -/
theorem quiet_of_not_dynamic (place : List Nat) {following : Following} :
    ∀ {node : Node}, (Outline.ofNode following node).isDynamic = false →
      (clone place node : List (Dom NodeId ν)) = bare place node ∧ saved place false node = []
  | element tag properties children, h => by
      rw [Outline.ofNode_element, Outline.isDynamic] at h
      obtain ⟨hpatched, hchildren⟩ := not_patched_of_not_dynamic h
      obtain ⟨hclone, hsaved⟩ := quiet_of_none_dynamic place 0 false hchildren
      have hstart : (cloneAll place 0 .start children : List (Dom NodeId ν)) = _ := hclone
      simp [clone, bare, saved, hpatched, hstart, hsaved]
  | text value, _ => ⟨rfl, rfl⟩
  | placeholder target, h => by
      simp [Outline.ofNode, Outline.isDynamic] at h

theorem quiet_of_none_dynamic (place : List Nat) (index : Nat) (afterText : Bool) :
    ∀ {nodes : List Node}, (Outline.ofNodes nodes).2.dynamic = false →
      (cloneAll place index ⟨afterText, false⟩ nodes : List (Dom NodeId ν)) =
          bareAll place index nodes ∧
        savedAll place index false nodes = []
  | [], _ => ⟨rfl, rfl⟩
  | node :: rest, h => by
      simp only [Outline.ofNodes_cons, Outline.extend, Bool.or_eq_false_iff] at h
      obtain ⟨hrest, hnode⟩ := h
      obtain ⟨hclone, hsaved⟩ := quiet_of_not_dynamic (place ++ [index]) hnode
      cases node with
      | placeholder target => simp [Outline.ofNode, Outline.isDynamic] at hnode
      | element tag properties children =>
          obtain ⟨hmore, hnone⟩ := quiet_of_none_dynamic place (index + 1) false hrest
          simp [cloneAll, bareAll, savedAll, Shell.Gap.separators, Shell.Gap.past, isText,
            isPlaceholder, hclone, hsaved, hmore, hnone]
      | text value =>
          obtain ⟨hmore, hnone⟩ := quiet_of_none_dynamic place (index + 1) true hrest
          simp [cloneAll, bareAll, savedAll, Shell.Gap.separators, Shell.Gap.past, isPlaceholder,
            hclone, hsaved, hmore, hnone]

end

/-- Where the walk stops, nothing to the right needs it. -/
theorem quiet_of_ends (place : List Nat) (index : Nat) (afterText : Bool) {nodes : List Node}
    (h : (Outline.ofNodes nodes).2.ends = true) :
    (cloneAll place index ⟨afterText, false⟩ nodes : List (Dom NodeId ν)) =
        bareAll place index nodes ∧
      savedAll place index false nodes = [] := by
  simp only [Following.ends, Bool.not_eq_true', Bool.and_eq_false_iff] at h
  rcases h with h | h
  · exact quiet_of_none_dynamic place index afterText h
  · obtain ⟨hclone, hbare, hsaved⟩ := quiet_of_not_solid place index ⟨afterText, false⟩ false h
    exact ⟨hclone.trans hbare.symm, hsaved⟩

end Node

/-! ## The steps of a level -/

namespace Dom

/-- The steps into an element and over its children, with what comes after them on its level. -/
theorem follow_stepInto {id : NodeId} {tag : String} {attributes : Attributes}
    {log : List (LogEntry ν)} {children children' rest rest' : List (Dom NodeId ν)}
    {inner more : List WalkOp} {within after : List NodeId} (save : Bool)
    (hinner : follow inner children = .ok (children', within))
    (hmore : follow more rest = .ok (rest', after)) :
    follow (Outline.stepInto save inner ++ more)
        (element id tag attributes log children :: rest) =
      .ok (element id tag attributes log children' :: rest',
        (if save then [id] else []) ++ within ++ after) := by
  cases inner with
  | nil =>
      rw [follow] at hinner
      obtain ⟨rfl, rfl⟩ := Prod.mk.inj (Except.ok.inj hinner)
      cases save with
      | false => simp [Outline.stepInto, Outline.step, follow, hmore, bind, Except.bind]
      | true => simp [Outline.stepInto, Outline.step, follow, hmore, bind, Except.bind, Dom.id]
  | cons op ops =>
      simp [Outline.stepInto, follow, hinner, hmore, bind, Except.bind]

end Dom

namespace Outline

mutual

/-- The walk does not depend on which slots nodes have. -/
theorem visit_number (save behind : Bool) (next : Nat) :
    ∀ outline : Outline, visit save (number behind next outline).1 = visit save outline
  | element tag properties marks following slot children => by
      simp only [number]
      split
      · simp [visit, walk_numberAll]
      · simp [visit, walk_numberAll]
  | text value following slot => by
      simp only [number]
      split
      · rfl
      · rfl
  | placeholder target => rfl

theorem walk_numberAll (afterText gap behind : Bool) (next : Nat) :
    ∀ outlines : List Outline,
      walk afterText gap (numberAll behind next outlines).1 = walk afterText gap outlines
  | [] => rfl
  | element tag properties marks following slot children :: rest => by
      have hvisit := visit_number (gap || marks.patched) behind next
        (element tag properties marks following slot children)
      simp only [numberAll, number] at hvisit ⊢
      split
      · rename_i hneeded
        simp only [if_pos hneeded] at hvisit
        simp only [walk, hvisit, walk_numberAll]
      · rename_i hneeded
        simp only [if_neg hneeded] at hvisit
        simp only [walk, hvisit, walk_numberAll]
  | text value following slot :: rest => by
      simp only [numberAll, number]
      split
      · simp only [walk, walk_numberAll]
      · simp only [walk, walk_numberAll]
  | placeholder target :: rest => by
      simp only [numberAll, number, walk, walk_numberAll]

end

end Outline

/-! ## The whole walk -/

namespace Node

/-- Steps do on the clone of some siblings what a walk is meant to do: they take out the separators
and record the nodes that need a slot. -/
def WalkedBy (ν : Type) (place : List Nat) (index : Nat) (gap : Shell.Gap) (nodes : List Node)
    (ops : List WalkOp) : Prop :=
  Dom.follow ops (cloneAll place index gap nodes : List (Dom NodeId ν)) =
    .ok (bareAll place index nodes, (savedAll place index gap.placeholder nodes).map .cloned)

/-- Nothing needs to be done where no separator stands and no slot is needed. -/
theorem walkedBy_nil_iff {place : List Nat} {index : Nat} {gap : Shell.Gap} {nodes : List Node} :
    WalkedBy ν place index gap nodes [] ↔
      (cloneAll place index gap nodes : List (Dom NodeId ν)) = bareAll place index nodes ∧
        savedAll place index gap.placeholder nodes = [] := by
  rw [WalkedBy, Dom.follow, Except.ok.injEq, Prod.mk.injEq, eq_comm (a := []), List.map_eq_nil_iff]

theorem walkedBy_nil_of_ends (place : List Nat) (index : Nat) (afterText : Bool)
    {nodes : List Node} (h : (Outline.ofNodes nodes).2.ends = true) :
    WalkedBy ν place index ⟨afterText, false⟩ nodes [] :=
  walkedBy_nil_iff.mpr (quiet_of_ends place index afterText h)

/-- The first sibling is an element, which is recorded if needed and entered if there are steps. -/
theorem WalkedBy.element {place : List Nat} {index : Nat} {tag : String}
    {properties : List Property} {children rest : List Node} {inner more : List WalkOp}
    (gap : Shell.Gap) (hinner : WalkedBy ν (place ++ [index]) 0 .start children inner)
    (hmore : WalkedBy ν place (index + 1) ⟨false, false⟩ rest more) :
    WalkedBy ν place index gap (element tag properties children :: rest)
      (Outline.stepInto (gap.placeholder || patched properties children) inner ++ more) := by
  have hpage : (cloneAll place index gap (Node.element tag properties children :: rest) :
        List (Dom NodeId ν)) =
      .element (.cloned (place ++ [index])) tag (.ofProperties properties) []
        (cloneAll (place ++ [index]) 0 .start children) ::
          cloneAll place (index + 1) ⟨false, false⟩ rest := by
    simp [cloneAll, clone, Shell.Gap.separators, Shell.Gap.past, isText]
  rw [WalkedBy, hpage, bareAll, bare, savedAll, saved,
    Dom.follow_stepInto (gap.placeholder || patched properties children) hinner hmore]
  cases gap.placeholder || patched properties children <;> simp [Shell.Gap.start, isPlaceholder]

/-- The first sibling is a text: behind a placeholder it is recorded, together with the separator in
front of it if there is one, and otherwise it is passed over. -/
theorem WalkedBy.text {place : List Nat} {index : Nat} {rest : List Node} {more : List WalkOp}
    (gap : Shell.Gap) (value : String)
    (hmore : WalkedBy ν place (index + 1) ⟨true, false⟩ rest more) :
    WalkedBy ν place index gap (text value :: rest)
      ((if gap.placeholder then if gap.afterText then .remove else .save else .next) :: more) := by
  obtain ⟨afterText, behind⟩ := gap
  rw [WalkedBy] at hmore ⊢
  cases behind with
  | true =>
      -- The separator is there exactly if the last constant sibling was a text, too.
      cases afterText with
      | true =>
          simp [cloneAll, clone, bareAll, bare, savedAll, saved, Shell.Gap.separators,
            Shell.Gap.past, isText, isPlaceholder, Dom.follow, hmore, bind, Except.bind]
      | false =>
          simp [cloneAll, clone, bareAll, bare, savedAll, saved, Shell.Gap.separators,
            Shell.Gap.past, isPlaceholder, Dom.follow, Dom.id, hmore, bind, Except.bind]
  | false =>
      simp [cloneAll, clone, bareAll, bare, savedAll, saved, Shell.Gap.separators,
        Shell.Gap.past, isPlaceholder, Dom.follow, hmore, bind, Except.bind]

/-- The first sibling is a placeholder, which has left nothing on the page. -/
theorem WalkedBy.placeholder {place : List Nat} {index : Nat} {rest : List Node}
    {ops : List WalkOp} (gap : Shell.Gap) (target : Placeholder)
    (hrest : WalkedBy ν place (index + 1) { gap with placeholder := true } rest ops) :
    WalkedBy ν place index gap (placeholder target :: rest) ops := by
  rw [WalkedBy] at hrest ⊢
  simpa [cloneAll, clone, bareAll, bare, savedAll, saved, Shell.Gap.separators, Shell.Gap.past,
    isText, isPlaceholder] using hrest

/-- The steps over the children of an element: those of the walk if the element has dynamic
content, and none otherwise. -/
def innerSteps : Node → List WalkOp
  | element _ properties children =>
    if (Outline.marksOf properties children).dynamic then
      Outline.walk false false (Outline.ofNodes children).1
    else []
  | _ => []

/-- The walk over siblings of which the first is an element. -/
theorem walk_element (gap : Shell.Gap) (tag : String) (properties : List Property)
    (children rest : List Node) :
    Outline.walk gap.afterText gap.placeholder
        (Outline.ofNodes (element tag properties children :: rest)).1 =
      let steps := Outline.stepInto (gap.placeholder || patched properties children)
        (element tag properties children).innerSteps
      if (Outline.ofNodes rest).2.ends then if steps = [.next] then [] else steps
      else steps ++ Outline.walk false false (Outline.ofNodes rest).1 := by
  rw [Outline.ofNodes_cons, Outline.ofNode_element, Outline.walk, Outline.visit,
    Outline.marksOf_patched]
  rfl

/-- An element that is only passed over at the end of a level need not be visited at all. -/
theorem stepInto_eq_next {save : Bool} {inner : List WalkOp}
    (h : Outline.stepInto save inner = [.next]) : save = false ∧ inner = [] := by
  unfold Outline.stepInto at h
  split at h
  · rename_i hempty
    refine ⟨?_, List.isEmpty_iff.mp hempty⟩
    cases save with
    | false => rfl
    | true => simp [Outline.step] at h
  · simp at h

/-- The first sibling is an element: it is passed over, recorded or entered, and then the walk goes
on or stops. -/
theorem walkedBy_walk_element {place : List Nat} {index : Nat} (gap : Shell.Gap) {tag : String}
    {properties : List Property} {children rest : List Node}
    (hinner : WalkedBy ν (place ++ [index]) 0 .start children
      (element tag properties children).innerSteps)
    (hrest : WalkedBy ν place (index + 1) ⟨false, false⟩ rest
      (Outline.walk false false (Outline.ofNodes rest).1)) :
    WalkedBy ν place index gap (element tag properties children :: rest)
      (Outline.walk gap.afterText gap.placeholder
        (Outline.ofNodes (element tag properties children :: rest)).1) := by
  rw [walk_element]
  by_cases hends : (Outline.ofNodes rest).2.ends = true
  · have hstop := walkedBy_nil_of_ends (ν := ν) place (index + 1) false hends
    simp only [if_pos hends]
    split
    · -- The walk stops before an element that it would only pass over.
      rename_i hnext
      obtain ⟨hsave, hempty⟩ := stepInto_eq_next hnext
      rw [hempty] at hinner
      obtain ⟨hchildren, hnone⟩ := walkedBy_nil_iff.mp hinner
      obtain ⟨hclone, hsaved⟩ := walkedBy_nil_iff.mp hstop
      rw [walkedBy_nil_iff]
      simp only [Shell.Gap.start] at hchildren hnone
      simp [cloneAll, clone, bareAll, bare, savedAll, saved, Shell.Gap.separators, Shell.Gap.past,
        Shell.Gap.start, isText, isPlaceholder, hsave, hchildren, hnone, hclone, hsaved]
    · have hown : WalkedBy ν place index gap (Node.element tag properties children :: rest) _ :=
        hinner.element gap hstop
      rwa [List.append_nil] at hown
  · simp only [if_neg hends]
    exact hinner.element gap hrest

/-- The first sibling is a text, at which the walk stops unless it is behind a placeholder or
something is left to do. -/
theorem walkedBy_walk_text {place : List Nat} {index : Nat} (gap : Shell.Gap) (value : String)
    {rest : List Node}
    (hrest : WalkedBy ν place (index + 1) ⟨true, false⟩ rest
      (Outline.walk true false (Outline.ofNodes rest).1)) :
    WalkedBy ν place index gap (text value :: rest)
      (Outline.walk gap.afterText gap.placeholder (Outline.ofNodes (text value :: rest)).1) := by
  have hstep := hrest.text gap value
  rw [Outline.ofNodes_cons, Outline.ofNode, Outline.walk]
  cases hbehind : gap.placeholder with
  | true => simpa [hbehind] using hstep
  | false =>
      by_cases hends : (Outline.ofNodes rest).2.ends = true
      · have hstop := walkedBy_nil_iff.mp (walkedBy_nil_of_ends (ν := ν) place (index + 1) true hends)
        simp only [hends, if_true]
        refine walkedBy_nil_iff.mpr ?_
        simp [cloneAll, clone, bareAll, bare, savedAll, saved, Shell.Gap.separators,
          Shell.Gap.past, isPlaceholder, hbehind, hstop]
      · simpa [hbehind, hends] using hstep

mutual

theorem walkedBy_innerSteps (place : List Nat) :
    ∀ node : Node, WalkedBy ν place 0 .start node.children node.innerSteps
  | element tag properties children => by
      rw [innerSteps, Node.children]
      split
      · exact walkedBy_walk place 0 .start children
      · rename_i hdynamic
        have hquiet := not_patched_of_not_dynamic (Bool.eq_false_of_not_eq_true hdynamic)
        exact walkedBy_nil_iff.mpr (quiet_of_none_dynamic place 0 false hquiet.2)
  | text value => walkedBy_nil_iff.mpr ⟨rfl, rfl⟩
  | placeholder target => walkedBy_nil_iff.mpr ⟨rfl, rfl⟩

/-- The walk over siblings, which starts behind the same gap as their markup. -/
theorem walkedBy_walk (place : List Nat) (index : Nat) (gap : Shell.Gap) :
    ∀ nodes : List Node, WalkedBy ν place index gap nodes
      (Outline.walk gap.afterText gap.placeholder (Outline.ofNodes nodes).1)
  | [] => walkedBy_nil_iff.mpr ⟨rfl, rfl⟩
  | element tag properties children :: rest =>
      walkedBy_walk_element gap
        (walkedBy_innerSteps (place ++ [index]) (element tag properties children))
        (walkedBy_walk place (index + 1) ⟨false, false⟩ rest)
  | text value :: rest =>
      walkedBy_walk_text gap value (walkedBy_walk place (index + 1) ⟨true, false⟩ rest)
  | placeholder target :: rest =>
      (walkedBy_walk place (index + 1) { gap with placeholder := true } rest).placeholder gap target

end

end Node

namespace Element

/-- The walk over the clone of a root. -/
theorem walk_clone (e : Element) :
    (e.clone : Dom NodeId ν).walk e.outline.walkStream =
      .ok (e.bare, .cloned [] :: e.saved.map .cloned) := by
  have hwalk : Dom.follow _ _ = _ := Node.walkedBy_walk (ν := ν) [] 0 .start e.children
  rw [outline_eq, Outline.walkStream, Outline.walk_numberAll, clone, Dom.walk]
  simp only [Shell.Gap.start] at hwalk
  simp [Shell.Gap.start, hwalk, bind, Except.bind, bare, saved]

/-- The nodes that the walk finds, by slot. -/
theorem getElem?_slots (e : Element) {place : List Nat} {slot : Nat}
    (h : e.outline.slotAt? place = some slot) :
    (.cloned [] :: e.saved.map NodeId.cloned)[slot]? = some (.cloned place) := by
  obtain ⟨hpos, hplace⟩ := (e.slotAt?_outline_iff place slot).mp h
  rw [List.getElem?_cons, if_neg (by omega), List.getElem?_map, hplace]
  rfl

end Element

/-- The walk of a root in normal form that words can count runs on the page that its shell denotes,
takes out all the separators and nothing else, and fills each slot with the node to which the slot
was given. -/
theorem walk_fills_slots_as_numbered (e : Element) (hnormal : e.toNode.isNormal = true)
    (hfits : e.toNode.FitsWords) :
    (∀ shell, Shell.ofElement e = .ok shell → shell.Denotes (e.clone : Dom NodeId ν)) ∧
    (e.clone : Dom NodeId ν).ids.Nodup ∧
    ∃ page slots, (e.clone : Dom NodeId ν).walk e.scratch.walk = .ok (page, slots) ∧
      page = (e.clone : Dom NodeId ν).sweep ∧ page.hasSeparator = false ∧
      slots.length = e.slotsGiven ∧ slots[0]? = some (.cloned []) ∧
      (∀ k, 0 < k → k < e.slotsGiven →
        ∃ place, e.scratch.slotAt? place = some k ∧ slots[k]? = some (.cloned place)) ∧
      (∀ place k, e.scratch.slotAt? place = some k →
        0 < k ∧ k < e.slotsGiven ∧ slots[k]? = some (.cloned place)) := by
  rw [Element.walk_scratch hfits, Element.slotsGiven_eq hfits]
  refine ⟨fun shell => e.denotes_clone hnormal, e.nodup_ids_clone, e.bare,
    .cloned [] :: e.saved.map .cloned, e.walk_clone, e.bare_eq_sweep,
    Node.anySeparator_bareAll [] 0 e.children, ?_, rfl, ?_, ?_⟩
  · rw [e.slotCount_eq, List.length_cons, List.length_map, Nat.add_comm]
  · intro k hpos hlt
    obtain ⟨place, hslot⟩ := (e.exists_slotAt?_iff k).mpr ⟨hpos, hlt⟩
    exact ⟨place, (Element.slotAt?_scratch hfits place).trans hslot, e.getElem?_slots hslot⟩
  · intro place k hslot
    rw [Element.slotAt?_scratch hfits] at hslot
    exact ⟨e.slot_pos hslot, e.slot_lt hslot, e.getElem?_slots hslot⟩

theorem walk_paragraph :
    Element.paragraph.toNode.isNormal = true ∧
      ∃ page slots, (Element.paragraph.clone : Dom NodeId Nat).walk
          Element.paragraph.scratch.walk = .ok (page, slots) ∧
        page.hasSeparator = false ∧ slots.length = 4 ∧ slots[3]? = some (.cloned [3, 1]) := by
  obtain ⟨-, -, page, slots, hwalk, -, hclean, hlength, -, -, hslots⟩ :=
    walk_fills_slots_as_numbered (ν := Nat) Element.paragraph (by decide)
      ⟨by decide, by decide⟩
  exact ⟨by decide, page, slots, hwalk, hclean, hlength, (hslots [3, 1] 3 (by decide)).2.2⟩

/-- Behind the paragraph of a long root there is nothing to step over. -/
theorem Element.walk_clone_long (asText : Bool) (count : Nat) (ops : List WalkOp) :
    ((long asText count).clone : Dom NodeId ν).walk (.next :: .next :: ops) = .error .noNode := by
  simp [long, clone, Node.cloneAll, Node.clone, Shell.Gap.separators, Node.isText, Dom.walk,
    Dom.follow, bind, Except.bind]

/-- A paragraph whose steps come to 0 is passed over, and the walk gets lost behind it. -/
theorem Element.walk_lost {count : Nat} (hpos : 0 < count) (hwrap : UInt32.ofNat (count + 1) = 0) :
    ((long false count).clone : Dom NodeId ν).walk (long false count).scratch.walk =
      .error .noNode := by
  obtain ⟨more, rfl⟩ := Nat.exists_eq_add_one.mpr hpos
  rw [walk_long false _ hwrap, List.replicate_succ, List.replicate_succ]
  exact walk_clone_long false _ _

theorem walk_lost_behind_long_paragraph :
    (Element.long false (2 ^ 32 - 1)).toNode.isNormal = true ∧
      (∃ shell, Shell.ofElement (Element.long false (2 ^ 32 - 1)) = .ok shell) ∧
      ((Element.long false (2 ^ 32 - 1)).clone : Dom NodeId Unit).walk
        (Element.long false (2 ^ 32 - 1)).scratch.walk = .error .noNode :=
  ⟨Element.isNormal_long _, Element.exists_shell_long false _,
    Element.walk_lost (by decide) (by decide)⟩

end DomTemplate

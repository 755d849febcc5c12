import Mathlib
import DomTemplate.Proofs.Sites
import DomTemplate.Proofs.WalkSound

/-!
# Which node each step of the walk is for

The steps that record a node are written for exactly the nodes that have slots, in the order of the
slots, although the walk leaves out what nothing depends on: it stops early on a level, drops a last
step that only passes over, and does not enter an element without dynamic content.

So the slots that a walk fills are as many as have been given out, and the header of a block, which
has the number of the latter, tells the number of the former.
-/

namespace DomTemplate

/-! ## Recorded nodes -/

/-- The places of the nodes that some steps record. -/
def recorded (steps : List (List Nat × WalkOp)) : List (List Nat) :=
  (steps.filter (·.2.takesSlot)).map Prod.fst

theorem recorded_append (steps more : List (List Nat × WalkOp)) :
    recorded (steps ++ more) = recorded steps ++ recorded more := by
  simp [recorded]

theorem recorded_cons (place : List Nat) (op : WalkOp) (steps : List (List Nat × WalkOp)) :
    recorded ((place, op) :: steps) = (if op.takesSlot then [place] else []) ++ recorded steps := by
  cases htakes : op.takesSlot <;> simp [recorded, htakes]

namespace Outline

theorem recorded_traceInto (place : List Nat) (save : Bool) (inner : List (List Nat × WalkOp)) :
    recorded (traceInto place save inner) = (if save then [place] else []) ++ recorded inner := by
  cases inner with
  | nil => cases save <;> rfl
  | cons first rest => exact recorded_cons place (.enter save _) (first :: rest)

/-- A single step that only passes over its node records nothing. -/
theorem recorded_of_next {steps : List (List Nat × WalkOp)} (h : steps.map Prod.snd = [.next]) :
    recorded steps = [] := by
  obtain ⟨⟨place, op⟩, rfl, hop⟩ := List.map_eq_singleton_iff.mp h
  obtain rfl : op = .next := hop
  rfl

theorem length_recorded (steps : List (List Nat × WalkOp)) :
    (recorded steps).length = (steps.map Prod.snd).countP WalkOp.takesSlot := by
  rw [recorded, List.length_map, List.countP_map, List.countP_eq_length_filter]
  rfl

/-- Where the walk stops behind an element, it loses no record by leaving out a last step that only
passes over the element. -/
theorem recorded_trace_element (place : List Nat) (index : Nat) (afterText behind : Bool)
    (tag : String) (properties : List Property) (marks : Marks) (following : Following)
    (slot : Option Nat) (children rest : List Outline) :
    recorded (trace place index afterText behind
        (element tag properties marks following slot children :: rest)) =
      recorded (traceVisit (place ++ [index]) (behind || marks.patched)
          (element tag properties marks following slot children)) ++
        if following.ends then [] else recorded (trace place (index + 1) false false rest) := by
  rw [trace]
  split
  · rw [List.append_nil]
    split
    · rename_i hnext
      exact (recorded_of_next hnext).symm
    · rfl
  · exact recorded_append _ _

mutual

/-- The steps over a node record what needs a slot at and below it. -/
theorem recorded_traceVisit (place : List Nat) (behind numbered : Bool) (next : Nat)
    (following : Following) :
    ∀ node : Node,
      recorded (traceVisit place (node.needsSlot behind)
          (number numbered next (ofNode following node)).1) =
        node.saved place behind
  | .element tag properties children => by
      rw [number_element, traceVisit, recorded_traceInto, Node.saved]
      congr 1
      split
      · exact recorded_trace place 0 false false false _ children
      · -- The element is not entered, and nothing below it needs a slot.
        rename_i hdynamic
        have hquiet := Node.not_patched_of_not_dynamic (Bool.eq_false_of_not_eq_true hdynamic)
        exact (Node.quiet_of_none_dynamic (ν := Empty) place 0 false hquiet.2).2.symm
  | .text value => by
      rw [number_text]
      cases behind <;> rfl
  | .placeholder target => rfl

/-- The walk over siblings records what needs a slot at and below them. -/
theorem recorded_trace (place : List Nat) (index : Nat) (afterText behind numbered : Bool)
    (next : Nat) :
    ∀ nodes : List Node,
      recorded (trace place index afterText behind
          (numberAll numbered next (ofNodes nodes).1).1) =
        Node.savedAll place index behind nodes
  | [] => rfl
  | .element tag properties children :: rest => by
      have hown := recorded_traceVisit (place ++ [index]) behind numbered next (ofNodes rest).2
        (.element tag properties children)
      have hrest (free : Nat) := recorded_trace place (index + 1) false false false free rest
      rw [number_element] at hown
      rw [numberAll_cons, number_element, recorded_trace_element, marksOf_patched, Node.savedAll]
      refine congrArg₂ (· ++ ·) hown ?_
      split
      · -- The level is left here, and nothing to the right needs a slot.
        rename_i hends
        exact (Node.quiet_of_ends (ν := Empty) place (index + 1) false hends).2.symm
      · exact hrest _
  | .text value :: rest => by
      have hrest (free : Nat) := recorded_trace place (index + 1) true false false free rest
      rw [numberAll_cons, number_text, trace, Node.savedAll, Node.saved]
      split
      · -- Taking out a separator records the text behind it just as saving the text does.
        rw [recorded_cons]
        cases afterText <;> exact congrArg _ (hrest _)
      · split
        · rename_i hends
          exact (Node.quiet_of_ends (ν := Empty) place (index + 1) true hends).2.symm
        · exact hrest _
  | .placeholder target :: rest => by
      rw [numberAll_cons, number_placeholder]
      exact recorded_trace place (index + 1) afterText true true next rest

end

end Outline

namespace Element

/-- The steps of a root element record the nodes that need a slot. -/
theorem recorded_traceStream (e : Element) :
    recorded e.outline.traceStream = e.saved := by
  rw [outline_eq]
  exact Outline.recorded_trace [] 0 false false false 1 e.children

/-- The walk fills as many slots as have been given out. -/
theorem countWalkSlots_walkStream (e : Element) :
    countWalkSlots e.outline.walkStream = e.slotCount := by
  rw [countWalkSlots, ← Outline.map_snd_traceStream, ← Outline.length_recorded,
    recorded_traceStream, slotCount_eq]

theorem countWalkSlots_walk {e : Element} (hfits : e.toNode.FitsWords) :
    countWalkSlots e.scratch.walk = e.slotsGiven := by
  rw [walk_scratch hfits, slotsGiven_eq hfits, countWalkSlots_walkStream]

end Element

/-- The walk stream of a root that words can count records a node for each slot that has been given
out, in the order of the slots, and its steps are written for the nodes with these slots.  So the
header of a block tells how many slots its walk fills, and it tells nothing but that, the number of
insertions and the dialect. -/
theorem walk_agrees_with_slots (e : Element) (hfits : e.toNode.FitsWords) :
    (e.scratch.trace []).map Prod.snd = e.scratch.walk ∧
    (∀ k place, (recorded (e.scratch.trace []))[k]? = some place ↔
      e.scratch.slotAt? place = some (k + 1)) ∧
    countWalkSlots e.scratch.walk = e.slotsGiven ∧
    ∀ dialect block, e.compile dialect = .ok block →
      block.flags.walkSlots = countWalkSlots block.walk ∧
      block.flags.mounts = countMounts block.mounts ∧
      countMounts block.mounts = e.insertionCount ∧
      (block.flags.isSvg = true ↔ dialect = .svg) ∧
      ∀ bit, 12 < bit → block.flags.bits.toNat.testBit bit = false := by
  refine ⟨Scratch.map_snd_trace [] e.scratch, fun k place => ?_,
    Element.countWalkSlots_walk hfits, ?_⟩
  · rw [Element.trace_scratch hfits, Element.slotAt?_scratch hfits, e.recorded_traceStream,
      e.slotAt?_outline_iff]
    simp
  · intro dialect block hblock
    have hcompiled := Element.compilesTo_of_compile hblock
    have hslots := hcompiled.slotCount_lt hfits
    have hmounts : countMounts block.mounts < 64 := by
      rw [hcompiled.countMounts_eq]
      exact hcompiled.childSlots
    rw [hcompiled.flags hfits, hcompiled.walk hfits, e.countWalkSlots_walkStream]
    refine ⟨Flags.walkSlots_ofCounts hslots hmounts _, Flags.mounts_ofCounts hslots hmounts _, ?_,
      ?_, ?_⟩
    · rw [hcompiled.mounts hfits, e.countMounts_mountStream]
    · rw [Flags.isSvg_ofCounts hslots hmounts, decide_eq_true_iff]
    · exact fun bit => Flags.testBit_ofCounts hslots hmounts _

theorem walk_slots_paragraph :
    ∃ block, Element.paragraph.compile .svg = .ok block ∧ block.flags.walkSlots = 4 ∧
      countWalkSlots block.walk = 4 ∧ block.flags.mounts = 3 ∧ block.flags.isSvg = true := by
  obtain ⟨hslots, hmounts, -, hsvg, -⟩ :=
    (walk_agrees_with_slots Element.paragraph ⟨by decide, by decide⟩).2.2.2 .svg _ rfl
  exact ⟨_, rfl, hslots, rfl, hmounts, hsvg.mpr rfl⟩

end DomTemplate

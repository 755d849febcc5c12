import Mathlib
import DomTemplate.Proofs.WalkSound

/-!
# Stopping early is an economy

A walk stops on a level as soon as nothing further to the right can need a slot.  The full walk goes
on to the end of every level that it enters.  It is what the same emitter gives for a tree on which
every node looks as if there were more to come.

On the page of a root that words can count, both walks take out the same separators and record the
same nodes in the same order, so what the shorter one leaves out is never missed.
-/

namespace DomTemplate

variable {ν : Type}

namespace Outline

mutual

/-- The outline of which each node looks as if something to find stood to the right of it. -/
def unending : Outline → Outline
  | element tag properties marks _ slot children =>
    element tag properties marks ⟨true, true⟩ slot (unendingAll children)
  | text value _ slot => text value ⟨true, true⟩ slot
  | placeholder target => placeholder target

def unendingAll : List Outline → List Outline
  | [] => []
  | outline :: rest => unending outline :: unendingAll rest

end

/-- The walk stream of a root that never stops early. -/
def fullWalkStream (root : Outline) : List WalkOp :=
  root.unending.walkStream

/-- The steps over the children of an element in a full walk. -/
def fullInnerSteps : Outline → List WalkOp
  | element _ _ marks _ _ children =>
    if marks.dynamic then walk false false (unendingAll children) else []
  | _ => []

/-- In a full walk the steps over an element are followed by those over its right neighbours. -/
theorem walk_unendingAll_element (afterText behind : Bool) (tag : String)
    (properties : List Property) (marks : Marks) (following : Following) (slot : Option Nat)
    (children rest : List Outline) :
    walk afterText behind
        (unendingAll (element tag properties marks following slot children :: rest)) =
      stepInto (behind || marks.patched)
          (element tag properties marks following slot children).fullInnerSteps ++
        walk false false (unendingAll rest) := by
  rw [unendingAll, unending, walk, visit]
  rfl

/-- In a full walk every text has its step. -/
theorem walk_unendingAll_text (afterText behind : Bool) (value : String) (following : Following)
    (slot : Option Nat) (rest : List Outline) :
    walk afterText behind (unendingAll (text value following slot :: rest)) =
      (if behind then if afterText then .remove else .save else .next) ::
        walk true false (unendingAll rest) := by
  rw [unendingAll, unending, walk]
  cases behind <;> rfl

end Outline

namespace Node

mutual

/-- The steps of a full walk over the children of a node. -/
theorem walkedBy_fullInnerSteps (place : List Nat) (behind : Bool) (next : Nat)
    (following : Following) :
    ∀ node : Node, WalkedBy ν place 0 .start node.children
      (Outline.number behind next (Outline.ofNode following node)).1.fullInnerSteps
  | element tag properties children => by
      rw [Outline.number_element, Outline.fullInnerSteps, Node.children]
      split
      · exact walkedBy_fullWalk place 0 .start false _ children
      · -- An element without dynamic content is not entered by the full walk either.
        rename_i hdynamic
        have hquiet := not_patched_of_not_dynamic (Bool.eq_false_of_not_eq_true hdynamic)
        exact walkedBy_nil_iff.mpr (quiet_of_none_dynamic place 0 false hquiet.2)
  | text value => by
      rw [Outline.number_text]
      exact walkedBy_nil_iff.mpr ⟨rfl, rfl⟩
  | placeholder target => walkedBy_nil_iff.mpr ⟨rfl, rfl⟩

/-- The full walk over siblings, which starts behind the same gap as their markup. -/
theorem walkedBy_fullWalk (place : List Nat) (index : Nat) (gap : Shell.Gap) (behind : Bool)
    (next : Nat) :
    ∀ nodes : List Node, WalkedBy ν place index gap nodes
      (Outline.walk gap.afterText gap.placeholder
        (Outline.unendingAll (Outline.numberAll behind next (Outline.ofNodes nodes).1).1))
  | [] => walkedBy_nil_iff.mpr ⟨rfl, rfl⟩
  | element tag properties children :: rest => by
      have hinner := walkedBy_fullInnerSteps (place ++ [index]) behind next
        (Outline.ofNodes rest).2 (element tag properties children)
      rw [Outline.number_element] at hinner
      rw [Outline.numberAll_cons, Outline.number_element, Outline.walk_unendingAll_element,
        Outline.marksOf_patched]
      exact hinner.element gap (walkedBy_fullWalk place (index + 1) ⟨false, false⟩ false _ rest)
  | text value :: rest => by
      rw [Outline.numberAll_cons, Outline.number_text, Outline.walk_unendingAll_text]
      exact (walkedBy_fullWalk place (index + 1) ⟨true, false⟩ false _ rest).text gap value
  | placeholder target :: rest => by
      rw [Outline.numberAll_cons, Outline.number_placeholder]
      exact (walkedBy_fullWalk place (index + 1) { gap with placeholder := true } true next
        rest).placeholder gap target

end

end Node

/-- The full walk over the clone of a root. -/
theorem Element.fullWalk_clone (e : Element) :
    (e.clone : Dom NodeId ν).walk e.outline.fullWalkStream =
      .ok (e.bare, .cloned [] :: e.saved.map .cloned) := by
  have hwalk : Dom.follow _ _ = _ :=
    Node.walkedBy_fullWalk (ν := ν) [] 0 .start false 1 e.children
  rw [outline_eq, Outline.fullWalkStream, Outline.unending, Outline.walkStream, clone, Dom.walk]
  simp only [Shell.Gap.start] at hwalk
  simp [Shell.Gap.start, hwalk, bind, Except.bind, bare, saved]

namespace Scratch

mutual

/-- The scratch tree of which each node looks as if something to find stood to the right of it. -/
def unending : Scratch → Scratch
  | element tag properties bound mounts flags slot children =>
    element tag properties bound mounts
      (flags ||| Flag.nextDynamic.mask ||| Flag.nextSolid.mask) slot (unendingAll children)
  | text value flags slot =>
    text value (flags ||| Flag.nextDynamic.mask ||| Flag.nextSolid.mask) slot
  | placeholder target flags => placeholder target flags

def unendingAll : List Scratch → List Scratch
  | [] => []
  | node :: rest => unending node :: unendingAll rest

end

/-- The walk stream of a root that never stops early. -/
def fullWalk (root : Scratch) : List WalkOp :=
  root.unending.walk

mutual

theorem read_unending : ∀ node : Scratch, node.unending.read = node.read.unending
  | element tag properties bound mounts flags slot children => by
      have hdynamic : Flag.dynamic.isIn
          (flags ||| Flag.nextDynamic.mask ||| Flag.nextSolid.mask) = Flag.dynamic.isIn flags := by
        simp [Flag.isIn_or_mask]
      rw [unending, read, hdynamic, following_or_nextSolid, following_or_nextDynamic,
        readAll_unendingAll]
      rfl
  | text value flags slot => by
      rw [unending, read, following_or_nextSolid, following_or_nextDynamic]
      rfl
  | placeholder target flags => rfl

theorem readAll_unendingAll : ∀ nodes : List Scratch,
    readAll (unendingAll nodes) = Outline.unendingAll (readAll nodes)
  | [] => rfl
  | node :: rest => by
      rw [unendingAll, readAll, readAll, Outline.unendingAll, read_unending, readAll_unendingAll]

end

end Scratch

namespace Outline

mutual

theorem size_unending : ∀ outline : Outline, outline.unending.size = outline.size
  | element tag properties marks following slot children => by
      rw [unending, size, size, sizeAll_unendingAll]
  | text value following slot => rfl
  | placeholder target => rfl

theorem sizeAll_unendingAll : ∀ outlines : List Outline,
    sizeAll (unendingAll outlines) = sizeAll outlines
  | [] => rfl
  | outline :: rest => by
      rw [unendingAll, sizeAll, sizeAll, size_unending, sizeAll_unendingAll]

end

end Outline

/-- The full walk of a root that words can count is told by its outline. -/
theorem Element.fullWalk_scratch {e : Element} (h : e.toNode.FitsWords) :
    e.scratch.fullWalk = e.outline.fullWalkStream := by
  have hread : e.scratch.unending.read = e.outline.unending := by
    rw [Scratch.read_unending, (numberRoot_reads h).1]
  have hlength : e.outline.unending.walkStream.length < 2 ^ 32 := by
    have hle := Outline.length_walk_le false false (Outline.unendingAll
      (Outline.numberAll false 1 (Outline.ofNodes e.children).1).1)
    have hnodes := h.nodes
    rw [Outline.sizeAll_unendingAll, Outline.sizeAll_numberAll, Outline.sizeAll_ofNodes] at hle
    rw [toNode, Node.nodeCount] at hnodes
    rw [outline_eq, Outline.unending, Outline.walkStream]
    omega
  rw [← hread] at hlength
  rw [Scratch.fullWalk, Scratch.walk_eq hlength, hread]
  rfl

/-- On the page that the shell of a root in normal form denotes, the walk of the root and the full
walk both run, leave the same page and fill the same slots with the same nodes, if words can count
the tree. -/
theorem early_exit_changes_nothing (e : Element) (hnormal : e.toNode.isNormal = true)
    (hfits : e.toNode.FitsWords) :
    (∀ shell, Shell.ofElement e = .ok shell → shell.Denotes (e.clone : Dom NodeId ν)) ∧
      ∃ page slots,
        (e.clone : Dom NodeId ν).walk e.scratch.walk = .ok (page, slots) ∧
        (e.clone : Dom NodeId ν).walk e.scratch.fullWalk = .ok (page, slots) := by
  rw [Element.walk_scratch hfits, Element.fullWalk_scratch hfits]
  refine ⟨fun shell => e.denotes_clone hnormal, e.bare, .cloned [] :: e.saved.map .cloned, ?_, ?_⟩
  · exact e.walk_clone
  · exact e.fullWalk_clone

/-- A page with a paragraph to fill, after which there is nothing left to find. -/
def Element.padded : Element where
  tag := "div"
  properties := []
  children := [.element "p" [] [.placeholder ⟨1⟩, .text "a", .element "b" [] []],
    .element "hr" [] []]

theorem early_exit_padded :
    Element.padded.toNode.isNormal = true ∧
      Element.padded.scratch.walk = [.enter true 1, .save] ∧
      Element.padded.scratch.fullWalk = [.enter true 2, .save, .next, .next] ∧
      ∃ page slots,
        (Element.padded.clone : Dom NodeId Nat).walk Element.padded.scratch.walk =
          .ok (page, slots) ∧
        (Element.padded.clone : Dom NodeId Nat).walk Element.padded.scratch.fullWalk =
          .ok (page, slots) :=
  ⟨by decide, by decide, by decide,
    (early_exit_changes_nothing Element.padded (by decide) ⟨by decide, by decide⟩).2⟩

namespace Element

theorem walkAll_unendingAll_long (afterText asText : Bool) (count : Nat) (slot : UInt32) :
    Scratch.walkAll afterText false (Scratch.unendingAll (longScratch asText count slot)) =
      List.replicate count .next ++ [.save] := by
  induction count generalizing afterText with
  | zero => exact walkAll_found afterText _ _ _ slot
  | succ count ih =>
      have hflags : 6 ||| Flag.nextDynamic.mask ||| Flag.nextSolid.mask = 6 := by decide
      have hfiller : (Scratch.ofNode 6 (filler asText)).unending =
          Scratch.ofNode 6 (filler asText) := by
        cases asText with
        | false => exact congrArg (Scratch.element "i" [] 0 0 · 0 []) hflags
        | true => exact congrArg (Scratch.text "a" · 0) hflags
      rw [longScratch_succ, Scratch.unendingAll, hfiller, walkAll_filler, ih, List.replicate_succ,
        List.cons_append]

/-- The full walk does not enter a paragraph whose steps come to 0 either. -/
theorem fullWalk_long (asText : Bool) {count : Nat} (hwrap : UInt32.ofNat (count + 1) = 0) :
    (long asText count).scratch.fullWalk =
      .next :: (List.replicate count .next ++ [.save]) := by
  have hflags : 1 ||| Flag.nextDynamic.mask ||| Flag.nextSolid.mask = 7 := by decide
  have hgoes : (Scratch.element "p" [] 0 0 7 0
      (Scratch.unendingAll (longScratch asText count 1))).isLast = false := by
    rw [Scratch.isLast_eq]
    exact (by decide : (!(Flag.nextDynamic.isIn 7 && Flag.nextSolid.isIn 7)) = false)
  have hinner : (if Flag.dynamic.isIn 7 then
      Scratch.walkAll false false (Scratch.unendingAll (longScratch asText count 1)) else []) =
        List.replicate count .next ++ [.save] := walkAll_unendingAll_long false asText count 1
  have hsteps := stepInto_long hwrap
  rw [scratch, numberRoot_long, Scratch.fullWalk, Scratch.unending, Scratch.walk,
    Scratch.unendingAll, Scratch.unending, hflags, Scratch.walkAll_element, hinner, hgoes]
  exact congrArg (· ++ []) hsteps |>.trans (List.append_nil _)

end Element

/-- On a page with a paragraph of 2 ^ 32 steps neither of the walks runs. -/
theorem walks_lost_behind_long_paragraph :
    (Element.long false (2 ^ 32 - 1)).toNode.isNormal = true ∧
      (∃ shell, Shell.ofElement (Element.long false (2 ^ 32 - 1)) = .ok shell) ∧
      ((Element.long false (2 ^ 32 - 1)).clone : Dom NodeId Unit).walk
        (Element.long false (2 ^ 32 - 1)).scratch.walk = .error .noNode ∧
      ((Element.long false (2 ^ 32 - 1)).clone : Dom NodeId Unit).walk
        (Element.long false (2 ^ 32 - 1)).scratch.fullWalk = .error .noNode := by
  have hfull : ∀ count, 0 < count → UInt32.ofNat (count + 1) = 0 →
      ((Element.long false count).clone : Dom NodeId Unit).walk
        (Element.long false count).scratch.fullWalk = .error .noNode := by
    intro count hpos hwrap
    obtain ⟨more, rfl⟩ := Nat.exists_eq_add_one.mpr hpos
    rw [Element.fullWalk_long false hwrap, List.replicate_succ, List.cons_append]
    exact Element.walk_clone_long false _ _
  exact ⟨Element.isNormal_long _, Element.exists_shell_long false _,
    Element.walk_lost (by decide) (by decide), hfull _ (by decide) (by decide)⟩

end DomTemplate

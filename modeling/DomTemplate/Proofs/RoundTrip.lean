import Mathlib
import DomTemplate.Proofs.Accepted
import DomTemplate.Proofs.MountingRun
import DomTemplate.Proofs.WalkSound

/-!
# Blocks do what their roots say

The instance of the block of a root on the page that the shell denotes is the rendering of the root,
whatever its placeholders are filled with.
-/

namespace DomTemplate

variable {ν : Type}

/-- An instance by its three passes. -/
theorem Block.instantiate_eq_ok {block : Block} {fill : Placeholder → List ν}
    {page swept logged : Dom NodeId ν} {slots : List NodeId} {last : NodeId} {state : Mounting ν}
    (hwalk : page.walk block.walk = .ok (swept, slots))
    (hbinds : block.binds.foldlM (Scope.bindStep ⟨slots, block.keys, block.inputs, fill⟩)
      (swept.id, swept) = .ok (last, logged))
    (hmounts : block.mounts.foldlM (Scope.mountStep ⟨slots, block.keys, block.inputs, fill⟩)
      ⟨logged.id, none, 0, logged⟩ = .ok state) :
    block.instantiate fill page = .ok state.page := by
  simp only [instantiate, hwalk, hbinds, hmounts, bind, Except.bind]

namespace Element

/-- What the operations of the block of a root refer to after the walk. -/
def scope (e : Element) (fill : Placeholder → List ν) : Scope ν where
  slots := .cloned [] :: e.saved.map .cloned
  keys := (e.outline.bindStream e.toNode.placeholders).2
  inputs := e.toNode.placeholders.entries
  fill := fill

theorem finds_slotted (e : Element) (fill : Placeholder → List ν) :
    (e.scope fill).Finds (Outline.slottedAll [] 0
      (Outline.numberAll false 1 (Outline.ofNodes e.children).1).1) := by
  intro place slot h
  apply e.getElem?_slots
  have hmem : (place, slot) ∈ e.outline.slotted [] := by
    rw [outline_eq]
    exact h
  obtain ⟨below, rfl, hslot⟩ := (Outline.mem_slotted []).mp hmem
  exact hslot

theorem mem_placeholders (e : Element) {target : Placeholder} (h : target ∈ e.toNode.targets) :
    target ∈ e.toNode.placeholders.entries :=
  (e.toNode.mem_placeholders target).mpr h

/-- The binding stream of a root runs on its swept clone. -/
theorem run_binds (e : Element) (fill : Placeholder → List ν) :
    ∃ journal last, e.toNode.Chronicle (Scope.Logged fill) [] journal ∧
      (e.outline.bindStream e.toNode.placeholders).1.foldlM (e.scope fill).bindStep
        (.cloned [], e.bare) = .ok (last, e.bare.amendMany journal) := by
  have hkeys : (e.outline.bind e.toNode.placeholders .empty).2.entries <+: (e.scope fill).keys :=
    List.prefix_refl _
  rw [outline_eq] at hkeys ⊢
  refine Scope.run_bindElement rfl (fun _ => rfl) ?_ hkeys e.bare.covers_self ?_
  · exact fun target h => e.mem_placeholders (List.mem_append_left _ h)
  · intro keys current page
    exact Scope.run_bindAll rfl [] 0 false 1 (e.finds_slotted fill)
      fun target h => e.mem_placeholders (List.mem_append_right _ h)

/-- The mounting stream of a root runs on its swept clone, whatever has been logged there. -/
theorem run_mounts (e : Element) (fill : Placeholder → List ν) {page : Dom NodeId ν}
    (hpage : page.Covers [e.bare]) :
    ∃ journal last, e.toNode.Chronicle (Scope.Filled fill) [] journal ∧
      (e.outline.mountStream e.toNode.placeholders).foldlM (e.scope fill).mountStep
        ⟨.cloned [], none, 0, page⟩ = .ok last ∧ last.page = page.amendMany journal := by
  have htargets : ∀ target ∈ Node.targetsAll e.children,
      target ∈ e.toNode.placeholders.entries :=
    fun target h => e.mem_placeholders (List.mem_append_right _ h)
  rw [outline_eq]
  exact Scope.run_mountElement rfl (fun _ => rfl) (e.finds_slotted fill) htargets hpage
    fun state => Scope.run_mountAll rfl [] 0 false 1 state (e.finds_slotted fill) htargets

theorem rendered_of_logged_of_filled {fill : Placeholder → List ν} (place : List Nat)
    (properties : List Property) (children : List Node) (first second : List (Change ν))
    (hfirst : Scope.Logged fill place properties children first)
    (hsecond : Scope.Filled fill place properties children second) :
    Rendered fill place properties children (first ++ second) := by
  obtain ⟨count, rfl⟩ := hsecond
  exact ⟨count, by rw [hfirst]⟩

end Element

/-- The block of a root in normal form, put to work on the page that its shell denotes, gives the
rendering of the root, if words can count its tree. -/
theorem instantiate_clone_eq_render (e : Element) (hnormal : e.toNode.isNormal = true)
    (hfits : e.toNode.FitsWords) (dialect : Dialect) (block : Block)
    (hblock : e.compile dialect = .ok block) (fill : Placeholder → List ν) :
    block.shell.Denotes (e.clone : Dom NodeId ν) ∧
      ∃ page, block.instantiate fill e.clone = .ok page ∧ page.forget = e.render fill := by
  have hcompiled := Element.compilesTo_of_compile hblock
  refine ⟨e.denotes_clone hnormal hcompiled.shell, ?_⟩
  obtain ⟨logs, last, hlogs, hbinds⟩ := e.run_binds fill
  obtain ⟨fills, state, hfills, hmounts, hstate⟩ :=
    e.run_mounts fill (e.bare.covers_self.amendMany logs)
  refine ⟨state.page, ?_, ?_⟩
  · have hwalk : (e.clone : Dom NodeId ν).walk block.walk = .ok (e.bare, (e.scope fill).slots) := by
      rw [hcompiled.walk hfits]
      exact e.walk_clone
    have hscope : e.scope fill = ⟨(e.scope fill).slots, block.keys, block.inputs, fill⟩ := by
      rw [hcompiled.keys hfits, hcompiled.inputs]
      rfl
    have hroot : (e.bare.amendMany logs).id = .cloned [] := Dom.id_amendMany logs e.bare
    rw [hscope, ← hcompiled.binds hfits] at hbinds
    rw [hscope, ← hcompiled.mounts hfits, ← hroot] at hmounts
    exact Block.instantiate_eq_ok hwalk hbinds hmounts
  · -- One journal after the other changes every element like one that logs and inserts in turn.
    have hchanged := hlogs.changedBy.append Element.rendered_of_logged_of_filled hfills.changedBy
    have hrender : [e.render fill] = [(e.bare.amendMany (logs ++ fills)).forget] :=
      Node.render_of_changedBy fill hchanged rfl
    rw [hstate, ← Dom.amendMany_append]
    exact (List.singleton_injective hrender).symm

theorem instantiate_paragraph :
    Element.paragraph.toNode.isNormal = true ∧
      ∃ block, Element.paragraph.compile .html = .ok block ∧
        block.shell.Denotes (Element.paragraph.clone : Dom NodeId Nat) ∧
        ∃ page, block.instantiate (fun target => List.range (target.id.toNat - 6))
            Element.paragraph.clone = .ok page ∧
          page.forget = Element.paragraph.render fun target => List.range (target.id.toNat - 6) :=
  ⟨by decide, _, rfl, instantiate_clone_eq_render Element.paragraph (by decide)
    ⟨by decide, by decide⟩ .html _ rfl _⟩

theorem Element.walk_clone_heavy (count : Nat) :
    ((heavy count).clone : Dom NodeId ν).walk [] = .ok ((heavy count).clone, [.cloned []]) := by
  rw [clone, Dom.walk, Dom.follow]
  rfl

/-- The block of an element with 2 ^ 32 directives logs none of them. -/
theorem instance_of_heavy_unlogged :
    (Element.heavy (2 ^ 32)).toNode.isNormal = true ∧
      ∃ block, (Element.heavy (2 ^ 32)).compile .html = .ok block ∧
        ∃ page, block.instantiate (fun _ => ([] : List Unit)) (Element.heavy (2 ^ 32)).clone =
            .ok page ∧
          page.forget ≠ (Element.heavy (2 ^ 32)).render fun _ => [] := by
  have hheavy : ∀ count, 0 < count → UInt32.ofNat count = 0 →
      ∃ block, (Element.heavy count).compile .html = .ok block ∧
        ∃ page, block.instantiate (fun _ => ([] : List Unit)) (Element.heavy count).clone =
            .ok page ∧
          page.forget ≠ (Element.heavy count).render fun _ => [] := by
    intro count hpos hwrap
    have hstreams := Element.streams_heavy hwrap (Element.heavy count).toNode.placeholders
    refine ⟨_, Element.compile_heavy hpos hwrap, (Element.heavy count).clone, ?_, ?_⟩
    · rw [Block.instantiate, Element.blockOf, hstreams.1, hstreams.2.1, hstreams.2.2,
        Element.walk_clone_heavy]
      rfl
    · -- The rendering has a line in the log of the root for each directive.
      have hlog : (List.replicate count Property.action).filterMap
          (Property.entry? fun _ => ([] : List Unit)) =
          List.replicate count ⟨.directive, []⟩ := List.filterMap_replicate_of_some rfl
      intro hpage
      injection hpage with _ _ _ hempty _
      rw [Element.heavy, hlog, eq_comm, List.replicate_eq_nil_iff] at hempty
      exact Nat.ne_of_gt hpos hempty
  exact ⟨rfl, hheavy _ (by decide) (by decide)⟩

end DomTemplate

import Mathlib
import DomTemplate.Compile
import DomTemplate.Proofs.CountedStreams
import DomTemplate.Proofs.Page.Clone

/-!
# What an accepted root gives

A root element passes four checks and becomes a block, whose parts are read off its scratch tree.
If words can count the tree, they can be read off its outline as well.
-/

namespace DomTemplate.Element

/-! ## The checks -/

/-- The number of insertions that a root element is compiled to. -/
def mountCount (e : Element) : Nat :=
  countMounts (e.scratch.mountStream e.toNode.placeholders)

/-- The checks of a root element, with the shell as it has been written or refused. -/
def checked (e : Element) (shell : Except Refusal Shell) : Except Refusal Shell := do
  e.require .expressions e.toNode.placeholders.size
  let shell ← shell
  e.require .stateSlots e.slotsGiven
  e.require .childSlots e.mountCount
  .ok shell

/-- The block of a root element with a given shell. -/
def blockOf (e : Element) (dialect : Dialect) (shell : Shell) : Block where
  flags := .ofCounts e.slotsGiven e.mountCount (dialect = .svg)
  shell := shell
  binds := (e.scratch.bindStream e.toNode.placeholders).1
  mounts := e.scratch.mountStream e.toNode.placeholders
  walk := e.scratch.walk
  keys := (e.scratch.bindStream e.toNode.placeholders).2
  inputs := e.toNode.placeholders.entries

/-- A root element that passes the checks becomes the block of its shell. -/
theorem compile_eq (e : Element) (dialect : Dialect) :
    e.compile dialect = (e.checked e.shell).map (e.blockOf dialect) := by
  have hcompile : e.compile dialect = (do
      e.require .expressions e.toNode.placeholders.size
      let shell ← e.shell
      e.require .stateSlots e.slotsGiven
      e.require .childSlots e.mountCount
      .ok (e.blockOf dialect shell)) := rfl
  rw [hcompile, checked]
  cases e.require .expressions e.toNode.placeholders.size with
  | error refusal => rfl
  | ok _ =>
      cases e.shell with
      | error refusal => rfl
      | ok shell =>
          cases e.require .stateSlots e.slotsGiven with
          | error refusal => rfl
          | ok _ => cases e.require .childSlots e.mountCount <;> rfl

theorem compile_toNode (e : Element) (dialect : Dialect) :
    e.toNode.compile dialect =
      (e.checked e.shell).map fun shell => .block (e.blockOf dialect shell) := by
  have hnode : e.toNode.compile dialect = (e.compile dialect).map Root.block := rfl
  rw [hnode, compile_eq]
  cases e.checked e.shell <;> rfl

theorem require_eq_ok_iff (e : Element) (resource : Resource) (count : Nat) :
    e.require resource count = .ok () ↔ resource.fits count = true := by
  rw [require]
  split <;> simp_all

theorem shell_eq_ok_iff (e : Element) (shell : Shell) :
    e.shell = .ok shell ↔ Shell.ofElement e = .ok shell := by
  rw [Element.shell]
  cases Shell.ofElement e <;> simp

/-! ## Blocks -/

/-- A block is what becomes of a root, which needs no more than a block can hold. -/
structure CompilesTo (e : Element) (dialect : Dialect) (block : Block) : Prop where
  expressions : e.toNode.placeholders.size ≤ 64
  stateSlots : e.slotsGiven < 64
  childSlots : e.mountCount < 64
  shell : Shell.ofElement e = .ok block.shell
  block : block = e.blockOf dialect block.shell

theorem compilesTo_of_compile {e : Element} {dialect : Dialect} {block : Block}
    (h : e.compile dialect = .ok block) : e.CompilesTo dialect block := by
  obtain ⟨_, hexpressions, h⟩ := bind_eq_ok_iff.mp h
  obtain ⟨shell, hshell, h⟩ := bind_eq_ok_iff.mp h
  obtain ⟨_, hstate, h⟩ := bind_eq_ok_iff.mp h
  obtain ⟨_, hchild, h⟩ := bind_eq_ok_iff.mp h
  rw [require_eq_ok_iff] at hexpressions hstate hchild
  cases h
  exact {
    expressions := of_decide_eq_true hexpressions
    stateSlots := of_decide_eq_true hstate
    childSlots := of_decide_eq_true hchild
    shell := (e.shell_eq_ok_iff shell).mp hshell
    block := rfl }

theorem compile_eq_ok {e : Element} {shell : Shell} (dialect : Dialect)
    (hexpressions : e.toNode.placeholders.size ≤ 64) (hshell : Shell.ofElement e = .ok shell)
    (hstate : e.slotsGiven < 64) (hchild : e.mountCount < 64) :
    e.compile dialect = .ok (e.blockOf dialect shell) := by
  rw [compile_eq, checked, (e.shell_eq_ok_iff shell).mpr hshell,
    (e.require_eq_ok_iff .expressions _).mpr (decide_eq_true hexpressions),
    (e.require_eq_ok_iff .stateSlots _).mpr (decide_eq_true hstate),
    (e.require_eq_ok_iff .childSlots _).mpr (decide_eq_true hchild)]
  rfl

namespace CompilesTo

variable {e : Element} {dialect : Dialect} {block : Block} (h : e.CompilesTo dialect block)

include h

theorem inputs : block.inputs = e.toNode.placeholders.entries :=
  congrArg Block.inputs h.block

theorem countMounts_eq : countMounts block.mounts = e.mountCount :=
  congrArg (fun own => countMounts own.mounts) h.block

variable (hfits : e.toNode.FitsWords)

include hfits

/-! What the block has is told by the outline of the root, if words can count its tree. -/

theorem slotCount_lt : e.slotCount < 64 := by
  rw [← slotsGiven_eq hfits]
  exact h.stateSlots

theorem flags : block.flags =
    .ofCounts e.slotCount (countMounts block.mounts) (dialect = .svg) := by
  rw [h.countMounts_eq, ← slotsGiven_eq hfits]
  exact congrArg Block.flags h.block

theorem walk : block.walk = e.outline.walkStream :=
  (congrArg Block.walk h.block).trans (walk_scratch hfits)

theorem binds : block.binds = (e.outline.bindStream e.toNode.placeholders).1 := by
  rw [← bindStream_scratch hfits]
  exact congrArg Block.binds h.block

theorem keys : block.keys = (e.outline.bindStream e.toNode.placeholders).2 := by
  rw [← bindStream_scratch hfits]
  exact congrArg Block.keys h.block

theorem mounts : block.mounts = e.outline.mountStream e.toNode.placeholders := by
  rw [← mountStream_scratch hfits]
  exact congrArg Block.mounts h.block

end CompilesTo

end DomTemplate.Element

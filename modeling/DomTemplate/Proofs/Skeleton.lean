import Mathlib
import DomTemplate.Proofs.Alike
import DomTemplate.Proofs.Words

/-!
# Constant content stays out of the streams

The skeleton of a tree is what is left of it without its constant content: the sorts of its nodes,
the placeholders between them and the bound properties of its elements.  The tags, the texts and the
constant properties are gone, and so is what the special ones among them mean, such as a void tag or
a `style` attribute.

The streams of a block, its keys and its inputs depend on the skeleton of the root alone.  Of the
header this is true up to the bit of the dialect.
-/

namespace DomTemplate

namespace Node

mutual

/-- The node without its constant content. -/
def skeleton : Node → Node
  | element _ properties children =>
    element "" (properties.filter Property.isDynamic) (skeletonAll children)
  | text _ => text ""
  | placeholder target => placeholder target

def skeletonAll : List Node → List Node
  | [] => []
  | node :: rest => skeleton node :: skeletonAll rest

end

end Node

theorem Property.alike_filter (properties : List Property) :
    Property.Alike id properties (properties.filter Property.isDynamic) := by
  rw [Property.Alike, Property.retarget_id, List.map_id, List.filter_filter]
  simp

namespace Node

theorem alike_skeletonAll (nodes : List Node) : Alike id false nodes (skeletonAll nodes) := by
  induction nodes using siblings_induction with
  | nil => exact .nil
  | element tag properties children rest ihchildren ihrest =>
      exact .element (Property.alike_filter properties) ihchildren ihrest
  | text value rest ih => exact .text ih
  | placeholder target rest ih => exact .placeholder ih

end Node

/-! ## Headers -/

/-- The dialect has one bit of a header to itself. -/
theorem Flags.testBit_ofCounts_of_ne (walkSlots mounts : Nat) (svg svg' : Bool) {bit : Nat}
    (hbit : bit ≠ 12) :
    (ofCounts walkSlots mounts svg).bits.toNat.testBit bit =
      (ofCounts walkSlots mounts svg').bits.toNat.testBit bit := by
  have hdialect (own : Bool) : (if own then 4096 else 0 : UInt32).toNat.testBit bit = false := by
    cases own with
    | false => exact Nat.zero_testBit bit
    | true => exact Nat.testBit_two_pow_of_ne (Ne.symm hbit)
  simp only [ofCounts, UInt32.toNat_or, Nat.testBit_or, hdialect]

namespace Element

/-- The root element without its constant content. -/
def skeleton (e : Element) : Element :=
  ⟨"", e.properties.filter Property.isDynamic, Node.skeletonAll e.children⟩

theorem alike_skeleton (e : Element) : e.Alike id false e.skeleton :=
  ⟨Property.alike_filter e.properties, Node.alike_skeletonAll e.children⟩

theorem skeleton_eq {e other : Element} (h : e.toNode.skeleton = other.toNode.skeleton) :
    e.skeleton = other.skeleton := by
  obtain ⟨-, hproperties, hchildren⟩ := Node.element.inj h
  rw [skeleton, skeleton, hproperties, hchildren]

theorem compile_of_toNode {e : Element} {dialect : Dialect} {block : Block}
    (h : e.toNode.compile dialect = .ok (.block block)) : e.compile dialect = .ok block := by
  have hnode : e.toNode.compile dialect = (e.compile dialect).map Root.block := rfl
  rw [hnode] at h
  cases hcompile : e.compile dialect with
  | error refusal => simp [hcompile, Except.map] at h
  | ok own => simpa [hcompile, Except.map] using h

/-- The parts of a block that depend on the skeleton of its root alone. -/
structure WiredBy (skeleton : Element) (block : Block) : Prop where
  walk : block.walk = skeleton.scratch.walk
  binds : block.binds = (skeleton.scratch.bindStream skeleton.toNode.placeholders).1
  keys : block.keys = (skeleton.scratch.bindStream skeleton.toNode.placeholders).2
  mounts : block.mounts = skeleton.scratch.mountStream skeleton.toNode.placeholders
  inputs : block.inputs = skeleton.toNode.placeholders.entries

theorem injOn_id (e : Element) : Set.InjOn id {target | target ∈ e.toNode.targets} :=
  Set.injOn_id _

theorem wiredBy_skeleton {e : Element} {dialect : Dialect} {block : Block}
    (h : e.CompilesTo dialect block) : e.skeleton.WiredBy block := by
  have halike := e.alike_skeleton
  have hinputs : e.skeleton.toNode.placeholders.entries = e.toNode.placeholders.entries := by
    rw [halike.placeholders_eq e.injOn_id]
    exact List.map_id _
  rw [h.block]
  exact {
    walk := (halike.walk_eq e.injOn_id).symm
    binds := by rw [halike.bindStream_eq e.injOn_id]; rfl
    keys := by rw [halike.bindStream_eq e.injOn_id]; rfl
    mounts := by rw [halike.mountStream_eq e.injOn_id]; rfl
    inputs := hinputs.symm }

end Element

/-- Two root elements with the same skeleton that compile, for whatever dialects, have the same
streams, keys and inputs, and the same numbers of slots and insertions.  Their headers differ in the
bit of the dialect at most. -/
theorem static_content_does_not_leak (e other : Element) (dialect dialect' : Dialect)
    (block block' : Block) (hskeleton : e.toNode.skeleton = other.toNode.skeleton)
    (hblock : e.toNode.compile dialect = .ok (.block block))
    (hblock' : other.toNode.compile dialect' = .ok (.block block')) :
    block.walk = block'.walk ∧ block.binds = block'.binds ∧ block.mounts = block'.mounts ∧
      block.keys = block'.keys ∧ block.inputs = block'.inputs ∧
      block.flags.walkSlots = block'.flags.walkSlots ∧
      block.flags.mounts = block'.flags.mounts ∧
      ∀ bit, bit ≠ 12 →
        block.flags.bits.toNat.testBit bit = block'.flags.bits.toNat.testBit bit := by
  have hcompiled := Element.compilesTo_of_compile (Element.compile_of_toNode hblock)
  have hcompiled' := Element.compilesTo_of_compile (Element.compile_of_toNode hblock')
  -- The blocks are not compared with each other, but each of them with the common skeleton.
  have hwired := Element.wiredBy_skeleton hcompiled
  have hwired' := Element.wiredBy_skeleton hcompiled'
  rw [← Element.skeleton_eq hskeleton] at hwired'
  have hmounts : block.mounts = block'.mounts := hwired.mounts.trans hwired'.mounts.symm
  have hslots : other.slotsGiven = e.slotsGiven := by
    rw [← other.alike_skeleton.slotsGiven_eq other.injOn_id,
      ← e.alike_skeleton.slotsGiven_eq e.injOn_id, Element.skeleton_eq hskeleton]
  have hcount : other.mountCount = e.mountCount := by
    rw [← hcompiled.countMounts_eq, ← hcompiled'.countMounts_eq, hmounts]
  have hflags : block.flags = .ofCounts e.slotsGiven e.mountCount (dialect = .svg) :=
    congrArg Block.flags hcompiled.block
  have hflags' : block'.flags = .ofCounts e.slotsGiven e.mountCount (dialect' = .svg) := by
    rw [← hslots, ← hcount]
    exact congrArg Block.flags hcompiled'.block
  refine ⟨hwired.walk.trans hwired'.walk.symm, hwired.binds.trans hwired'.binds.symm, hmounts,
    hwired.keys.trans hwired'.keys.symm, hwired.inputs.trans hwired'.inputs.symm, ?_⟩
  rw [hflags, hflags']
  refine ⟨?_, ?_, ?_⟩
  · rw [Flags.walkSlots_ofCounts hcompiled.stateSlots hcompiled.childSlots,
      Flags.walkSlots_ofCounts hcompiled.stateSlots hcompiled.childSlots]
  · rw [Flags.mounts_ofCounts hcompiled.stateSlots hcompiled.childSlots,
      Flags.mounts_ofCounts hcompiled.stateSlots hcompiled.childSlots]
  · intro bit hbit
    exact Flags.testBit_ofCounts_of_ne _ _ _ _ hbit

/-- The paragraph with other tags, other texts and further constant properties. -/
def Element.disguised : Element where
  tag := "section"
  properties := [⟨.attr, "style", .string "color:red"⟩, ⟨.attr, "class", .bound ⟨7⟩⟩,
    ⟨.value, "textContent", .string "x"⟩]
  children := [.text "", .placeholder ⟨3⟩, .text "<!>",
    .element "i" [⟨.attr, "hidden", .bool true⟩, ⟨.attr, "title", .bound ⟨3⟩⟩]
      [.placeholder ⟨7⟩, .text "c"], .placeholder ⟨9⟩]

theorem disguised_paragraph :
    ∃ block block', Element.paragraph.toNode.compile .html = .ok (.block block) ∧
      Element.disguised.toNode.compile .svg = .ok (.block block') ∧
      block.shell ≠ block'.shell ∧ block.flags ≠ block'.flags ∧
      block.walk = block'.walk ∧ block.binds = block'.binds ∧ block.mounts = block'.mounts ∧
      block.keys = block'.keys ∧ block.inputs = block'.inputs ∧
      block.flags.walkSlots = block'.flags.walkSlots := by
  obtain ⟨hwalk, hbinds, hmounts, hkeys, hinputs, hslots, -⟩ :=
    static_content_does_not_leak Element.paragraph Element.disguised .html .svg _ _ rfl rfl rfl
  exact ⟨_, _, rfl, rfl, by decide, by decide, hwalk, hbinds, hmounts, hkeys, hinputs, hslots⟩

end DomTemplate

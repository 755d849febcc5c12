import Mathlib
import DomTemplate.Proofs.Keys
import DomTemplate.Proofs.SlotReferences

/-!
# When the words of a block can be read back

What a block is refused for keeps its inputs and slots small.  Nothing bounds the number of its keys
or the length of a child walk, so these decide whether its words stand for its operations.
-/

namespace DomTemplate

namespace Outline

/-! ## Lengths of child walks -/

theorem length_pos_of_enter_mem_stepInto {save saved : Bool} {length : Nat} {inner : List WalkOp}
    (hinner : .enter saved length ∈ inner → 0 < length)
    (h : .enter saved length ∈ stepInto save inner) : 0 < length := by
  rw [stepInto] at h
  split at h
  · cases save <;> simp [step] at h
  · rename_i hsome
    rcases List.mem_cons.mp h with heq | hmem
    · obtain ⟨-, rfl⟩ := WalkOp.enter.inj heq
      exact List.length_pos_iff.mpr (by simpa using hsome)
    · exact hinner hmem

mutual

/-- An element is entered for at least one step. -/
theorem length_pos_of_enter_mem_visit {save saved : Bool} {length : Nat} :
    ∀ {outline : Outline}, .enter saved length ∈ outline.visit save → 0 < length
  | element tag properties marks following slot children, h => by
      refine length_pos_of_enter_mem_stepInto (fun hinner => ?_) h
      split at hinner
      · exact length_pos_of_enter_mem_walk hinner
      · simp at hinner
  | text value following slot, h => by
      cases save <;> simp [visit, step] at h
  | placeholder target, h => by
      simp [visit] at h

theorem length_pos_of_enter_mem_walk {saved : Bool} {length : Nat} :
    ∀ {afterText behind : Bool} {outlines : List Outline},
      .enter saved length ∈ walk afterText behind outlines → 0 < length
  | _, _, [], h => by
      simp [walk] at h
  | afterText, behind, element tag properties marks following slot children :: rest, h => by
      have hcases : .enter saved length ∈ visit (behind || marks.patched)
            (element tag properties marks following slot children) ∨
          .enter saved length ∈ walk false false rest := by
        rw [walk] at h
        split at h
        · split at h
          · simp at h
          · exact .inl h
        · exact List.mem_append.mp h
      rcases hcases with hown | hrest
      · exact length_pos_of_enter_mem_visit hown
      · exact length_pos_of_enter_mem_walk hrest
  | afterText, behind, text value following slot :: rest, h => by
      have hrest : .enter saved length ∈ walk true false rest := by
        rw [walk] at h
        split at h
        · cases afterText <;> simpa using h
        · split at h
          · simp at h
          · simpa using h
      exact length_pos_of_enter_mem_walk hrest
  | afterText, behind, placeholder target :: rest, h => by
      rw [walk] at h
      exact length_pos_of_enter_mem_walk h

end

theorem length_pos_of_enter_mem_walkStream {root : Outline} {saved : Bool} {length : Nat}
    (h : .enter saved length ∈ root.walkStream) : 0 < length := by
  cases root with
  | element tag properties marks following slot children => exact length_pos_of_enter_mem_walk h
  | text value following slot => simp [walkStream] at h
  | placeholder target => simp [walkStream] at h

/-! ## Inputs of insertions -/

theorem child_mem_mountChildren {inputs : Registry Placeholder} {outlines : List Outline}
    {input : Nat} (h : .child input ∈ mountChildren inputs outlines) : input < inputs.size := by
  induction outlines with
  | nil => simp [mountChildren] at h
  | cons outline rest ih =>
      cases outline with
      | element tag properties marks following own children => exact ih h
      | text value following own => exact ih h
      | placeholder target =>
          rw [mountChildren] at h
          split at h
          · exact ih h
          · rename_i own hown
            have hselect : .child input ∉ selectNext rest := by
              cases rest <;> simp [selectNext]
            simp only [List.mem_append, hselect, or_false, List.mem_singleton,
              MountOp.child.injEq] at h
            rcases h with h | rfl
            · exact ih h
            · exact Registry.lt_size_of_index? hown

theorem child_mem_mountStream {inputs : Registry Placeholder} {root : Outline} {input : Nat}
    (h : .child input ∈ root.mountStream inputs) : input < inputs.size := by
  obtain ⟨place, found, -, hop⟩ := (mem_mountStream inputs).mp h
  rw [ownMounts] at hop
  split at hop
  · exact child_mem_mountChildren (by simpa using hop)
  · simp at hop

end Outline

namespace Element

/-! ## What fits -/

theorem reference_lt (e : Element) (hslots : e.slotCount < 64) {inputs : Registry Placeholder}
    {slot : Nat}
    (h : .setNode slot ∈ (e.outline.bindStream inputs).1 ∨
      .setParent slot ∈ e.outline.mountStream inputs ∨
      .setNext slot ∈ e.outline.mountStream inputs) : slot < 64 := by
  obtain ⟨place, hslot⟩ := e.exists_slotAt?_of_reference h
  exact (e.slot_lt hslot).trans hslots

theorem fits_walk_iff (e : Element) :
    (∀ op ∈ e.outline.walkStream, op.Fits) ↔
      ∀ save length, .enter save length ∈ e.outline.walkStream → length < 2 ^ 29 := by
  constructor
  · exact fun h save length hop => (h _ hop).2
  · intro h op hop
    cases op with
    | next => trivial
    | save => trivial
    | remove => trivial
    | enter save length =>
        exact ⟨Outline.length_pos_of_enter_mem_walkStream hop, h save length hop⟩

theorem fits_binds_iff (e : Element) {inputs : Registry Placeholder} (hinputs : inputs.size ≤ 64)
    (hslots : e.slotCount < 64) :
    (∀ op ∈ (e.outline.bindStream inputs).1, op.Fits) ↔
      (e.outline.bindStream inputs).2.length ≤ 2 ^ 23 := by
  constructor
  · intro h
    by_contra hlong
    -- With more keys than that, the first that does not fit is named by some operation.
    have hnamed : Outline.NamesKey (2 ^ 23) (e.outline.bind inputs .empty).1 :=
      Outline.namesKey_bind (Nat.zero_le _) (Nat.lt_of_not_le hlong)
    obtain ⟨binding, input, hop⟩ := hnamed
    exact Nat.lt_irrefl _ (h _ hop).1
  · intro hkeys op hop
    have hnames : op.Names inputs.size (e.outline.bindStream inputs).2.length :=
      Outline.names_bind inputs .empty e.outline op hop
    cases op with
    | setNode slot => exact (e.reference_lt hslots (.inl hop)).trans (by decide)
    | common property input => exact Nat.lt_of_lt_of_le hnames hinputs
    | keyed binding key input =>
        exact ⟨Nat.lt_of_lt_of_le hnames.1 hkeys, Nat.lt_of_lt_of_le hnames.2 hinputs⟩
    | directive input => exact Nat.lt_of_lt_of_le hnames hinputs

theorem fits_mounts (e : Element) {inputs : Registry Placeholder} (hinputs : inputs.size ≤ 64)
    (hslots : e.slotCount < 64) : ∀ op ∈ e.outline.mountStream inputs, op.Fits := by
  have hwide : 64 < 2 ^ 30 := by decide
  intro op hop
  cases op with
  | child input =>
      exact (Nat.lt_of_lt_of_le (Outline.child_mem_mountStream hop) hinputs).trans hwide
  | setNext slot => exact (e.reference_lt hslots (.inr (.inr hop))).trans hwide
  | setParent slot => exact (e.reference_lt hslots (.inr (.inl hop))).trans hwide

end Element

/-- The streams of a block can be read back from its words if and only if its keys are few enough
and its child walks short enough. -/
theorem decode_encode_streams_iff (e : Element) (dialect : Dialect) (block : Block)
    (hfits : e.toNode.FitsWords) (hblock : e.compile dialect = .ok block) :
    (block.encode.walk.map WalkOp.decode = block.walk ∧
        block.encode.binds.map BindOp.decode? = block.binds.map some ∧
        block.encode.mounts.map MountOp.decode? = block.mounts.map some) ↔
      block.keys.length ≤ 2 ^ 23 ∧
        ∀ save length, .enter save length ∈ block.walk → length < 2 ^ 29 := by
  have hcompiled := Element.compilesTo_of_compile hblock
  have hwalk := e.fits_walk_iff
  have hbinds := e.fits_binds_iff hcompiled.expressions (hcompiled.slotCount_lt hfits)
  have hmounts := e.fits_mounts hcompiled.expressions (hcompiled.slotCount_lt hfits)
  rw [← hcompiled.walk hfits] at hwalk
  rw [← hcompiled.binds hfits, ← hcompiled.keys hfits] at hbinds
  rw [← hcompiled.mounts hfits] at hmounts
  simp only [Block.encode, WalkOp.map_decode_encode_iff, BindOp.map_decode?_encode_iff,
    MountOp.map_decode?_encode_iff]
  rw [hwalk, hbinds]
  constructor
  · rintro ⟨hlengths, hkeys, -⟩
    exact ⟨hkeys, hlengths⟩
  · rintro ⟨hkeys, hlengths⟩
    exact ⟨hlengths, hkeys, hmounts⟩

theorem decode_encode_paragraph :
    ∃ block, Element.paragraph.compile .html = .ok block ∧ block.keys.length ≤ 2 ^ 23 ∧
      block.encode.walk.map WalkOp.decode = block.walk ∧
      block.encode.binds.map BindOp.decode? = block.binds.map some ∧
      block.encode.mounts.map MountOp.decode? = block.mounts.map some := by
  have hlengths : ∀ op ∈ Element.paragraph.scratch.walk, op.Fits := by decide
  have hfits : Element.paragraph.toNode.FitsWords := ⟨by decide, by decide⟩
  exact ⟨_, rfl, by decide, (decode_encode_streams_iff Element.paragraph .html _ hfits rfl).mpr
    ⟨by decide, fun save length hop => (hlengths _ hop).2⟩⟩

end DomTemplate

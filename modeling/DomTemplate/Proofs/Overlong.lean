import Mathlib
import DomTemplate.Proofs.Accepted

/-!
# Trees that words cannot count

Three families of trees on which a counter of 32 bits comes back to 0: one with that many bound
properties, one with that many placeholders and one with that many steps below an element.  All of
them compile, since the checks do not see what has not been counted.
-/

namespace DomTemplate

/-- A value that is shown again and again is entered once. -/
theorem Registry.foldl_insert_replicate {α : Type} [DecidableEq α] (a : α) {count : Nat}
    (hpos : 0 < count) : (List.replicate count a).foldl insert empty = ⟨[a]⟩ := by
  have hagain : ∀ more, (List.replicate more a).foldl insert ⟨[a]⟩ = ⟨[a]⟩ := by
    intro more
    induction more with
    | zero => rfl
    | succ more ih =>
        rw [List.replicate_succ, List.foldl_cons, insert_of_mem List.mem_cons_self, ih]
  obtain ⟨more, rfl⟩ := Nat.exists_eq_add_one.mpr hpos
  rw [List.replicate_succ, List.foldl_cons]
  exact hagain more

/-- A directive on the placeholder 0. -/
def Property.action : Property := ⟨.directive, "", .bound ⟨0⟩⟩

namespace Element

/-! ## Too many properties -/

/-- An element that has one directive so many times. -/
def heavy (count : Nat) : Element where
  tag := "div"
  properties := List.replicate count .action
  children := []

section Heavy

variable {count : Nat}

theorem placeholders_heavy (hpos : 0 < count) : (heavy count).toNode.placeholders = ⟨[⟨0⟩]⟩ := by
  have hproperties : (List.replicate count Property.action).filterMap Property.target? =
      List.replicate count ⟨0⟩ := List.filterMap_replicate_of_some rfl
  have htargets : (heavy count).toNode.targets = List.replicate count ⟨0⟩ := by
    simp only [heavy, toNode, Node.targets, Node.targetsAll, hproperties, List.append_nil]
  rw [Node.placeholders, Node.register_eq, htargets, Registry.foldl_insert_replicate _ hpos]

theorem shell_heavy (count : Nat) : Shell.ofElement (heavy count) = .ok (.tag "div") := by
  have hfields : (List.replicate count Property.action).filterMap Attributes.field? = [] :=
    List.filterMap_replicate_of_none rfl
  have hstyle : (List.replicate count Property.action).filterMap Attributes.declaration? = [] :=
    List.filterMap_replicate_of_none rfl
  have hopen : Shell.openTag "div" (List.replicate count .action) = ["<div", ">"] := by
    rw [Shell.openTag_eq, Attributes.ofProperties, hfields, hstyle]
    rfl
  rw [Shell.ofElement, toNode, heavy, Shell.ofNode, hopen]
  rfl

theorem countP_heavy (count : Nat) :
    (heavy count).properties.countP Property.isDynamic = count := by
  rw [heavy, List.countP_replicate]
  rfl

/-- If the directives come to 0, the element looks like one without any. -/
theorem ofNode_heavy (hwrap : UInt32.ofNat count = 0) :
    Scratch.ofNode 0 (heavy count).toNode =
      .element "div" (List.replicate count .action) 0 0 0 0 [] := by
  -- The count is the only thing that tells of the directives.
  rw [toNode, Scratch.ofNode, countP_heavy, hwrap]
  rfl

theorem numberRoot_heavy (hwrap : UInt32.ofNat count = 0) :
    (Scratch.ofNode 0 (heavy count).toNode).numberRoot =
      (.element "div" (List.replicate count .action) 0 0 0 0 [], 1) := by
  rw [ofNode_heavy hwrap]
  rfl

theorem slotsGiven_heavy (hwrap : UInt32.ofNat count = 0) : (heavy count).slotsGiven = 1 := by
  rw [slotsGiven, numberRoot_heavy hwrap]
  rfl

theorem streams_heavy (hwrap : UInt32.ofNat count = 0) (inputs : Registry Placeholder) :
    (heavy count).scratch.bindStream inputs = ([], []) ∧
      (heavy count).scratch.mountStream inputs = [] ∧ (heavy count).scratch.walk = [] := by
  rw [scratch, numberRoot_heavy hwrap]
  exact ⟨rfl, rfl, rfl⟩

theorem compile_heavy (hpos : 0 < count) (hwrap : UInt32.ofNat count = 0) :
    (heavy count).compile .html = .ok ((heavy count).blockOf .html (.tag "div")) := by
  refine compile_eq_ok .html ?_ (shell_heavy count) ?_ ?_
  · rw [placeholders_heavy hpos]
    exact Nat.le_add_left 1 63
  · rw [slotsGiven_heavy hwrap]
    decide
  · rw [mountCount, (streams_heavy hwrap _).2.1]
    exact Nat.succ_pos 63

end Heavy

/-! ## Too many placeholders -/

/-- A root with so many placeholders, and one more, in front of an element. -/
def crowded (count : Nat) : Element where
  tag := "div"
  properties := []
  children := List.replicate count (.placeholder ⟨0⟩) ++ [.placeholder ⟨0⟩, .element "b" [] []]

/-- The scratch trees of the children, with a slot for the element. -/
def crowdedScratch (count : Nat) (slot : UInt32) : List Scratch :=
  List.replicate count (.placeholder ⟨0⟩ 7) ++ [.placeholder ⟨0⟩ 7, .element "b" [] 0 0 0 slot []]

theorem crowdedScratch_succ (count : Nat) (slot : UInt32) :
    crowdedScratch (count + 1) slot = .placeholder ⟨0⟩ 7 :: crowdedScratch count slot := by
  rw [crowdedScratch, List.replicate_succ, List.cons_append]
  rfl

section Crowded

variable (count : Nat)

theorem children_crowded :
    (crowded (count + 1)).children = .placeholder ⟨0⟩ :: (crowded count).children := by
  simp only [crowded, List.replicate_succ, List.cons_append]

theorem placeholders_crowded : (crowded count).toNode.placeholders = ⟨[⟨0⟩]⟩ := by
  have hall : Node.targetsAll (crowded count).children = List.replicate (count + 1) ⟨0⟩ := by
    induction count with
    | zero => rfl
    | succ count ih =>
        rw [children_crowded, Node.targetsAll, ih]
        rfl
  have htargets : (crowded count).toNode.targets = List.replicate (count + 1) ⟨0⟩ := hall
  rw [Node.placeholders, Node.register_eq, htargets,
    Registry.foldl_insert_replicate _ (Nat.succ_pos count)]

theorem shell_crowded :
    Shell.ofElement (crowded count) =
      .ok (.chunks ["<div", ">", "<b", ">", "</b>", "</div>"]) := by
  have hall : ∀ gap : Shell.Gap, Shell.ofNodes ["div"] gap (crowded count).children =
      .ok ["<b", ">", "</b>"] := by
    induction count with
    | zero => exact fun gap => rfl
    | succ count ih =>
        intro gap
        rw [children_crowded, Shell.ofNodes, ih]
        rfl
  have hinner : Shell.ofNodes ["div"] .start (crowded count).children = _ := hall .start
  rw [Shell.ofElement, toNode, Shell.ofNode]
  simp only [crowded, List.nil_append] at hinner ⊢
  rw [hinner]
  rfl

/-- The pass over the children, in which each placeholder is counted. -/
theorem scanChildren_crowded :
    Scratch.scanChildren 0 (crowded count).children =
      ⟨0, 6, .ofNat (count + 1), crowdedScratch count 0⟩ := by
  induction count with
  | zero => rfl
  | succ count ih =>
      have hmounts : UInt32.ofNat (count + 1 + 1) = .ofNat (count + 1) + 1 :=
        UInt32.ofNat_add (count + 1) 1
      have hsiblings : 6 ||| Flag.nextDynamic.mask = 6 := by decide
      have hown : 6 ||| Flag.dynamic.mask = 7 := by decide
      rw [children_crowded, Scratch.scanChildren, ih, hmounts, crowdedScratch_succ]
      simp only [Scratch.ofNode, hsiblings, hown]

theorem numberAll_crowded (behind : Bool) :
    Scratch.numberAll behind 1 (crowdedScratch count 0) = (crowdedScratch count 1, 2) := by
  induction count generalizing behind with
  | zero => rfl
  | succ count ih =>
      simp only [crowdedScratch_succ, Scratch.numberAll, Scratch.number, ih]

/-- Without placeholders that count there is nothing to bind or to insert. -/
theorem bindAll_crowded (inputs : Registry Placeholder) (keys : Registry String) :
    Scratch.bindAll inputs keys (crowdedScratch count 1) = ([], keys) := by
  induction count with
  | zero => rfl
  | succ count ih => simp only [crowdedScratch_succ, Scratch.bindAll, Scratch.bind, ih,
      List.append_nil]

theorem mountAll_crowded (inputs : Registry Placeholder) :
    Scratch.mountAll inputs (crowdedScratch count 1) = [] := by
  induction count with
  | zero => rfl
  | succ count ih => simp only [crowdedScratch_succ, Scratch.mountAll, Scratch.mount, ih,
      List.append_nil]

variable {count} (hwrap : UInt32.ofNat (count + 1) = 0)

include hwrap

/-- If the placeholders come to 0, the root looks like one without any, but the element behind them
has a slot. -/
theorem numberRoot_crowded :
    (Scratch.ofNode 0 (crowded count).toNode).numberRoot =
      (.element "div" [] 0 0 0 0 (crowdedScratch count 1), 2) := by
  rw [toNode, Scratch.ofNode, scanChildren_crowded, hwrap, Scratch.numberRoot, numberAll_crowded]
  rfl

theorem streams_crowded (inputs : Registry Placeholder) :
    (crowded count).scratch.bindStream inputs = ([], []) ∧
      (crowded count).scratch.mountStream inputs = [] := by
  rw [scratch, numberRoot_crowded hwrap]
  refine ⟨?_, ?_⟩
  · rw [Scratch.bindStream, Scratch.bind, bindAll_crowded]
    rfl
  · rw [Scratch.mountStream, Scratch.mount, mountAll_crowded]
    rfl

theorem slotsGiven_crowded : (crowded count).slotsGiven = 2 := by
  rw [slotsGiven, numberRoot_crowded hwrap]
  rfl

theorem compile_crowded :
    (crowded count).compile .html = .ok ((crowded count).blockOf .html
      (.chunks ["<div", ">", "<b", ">", "</b>", "</div>"])) := by
  refine compile_eq_ok .html ?_ (shell_crowded count) ?_ ?_
  · rw [placeholders_crowded]
    exact Nat.le_add_left 1 63
  · rw [slotsGiven_crowded hwrap]
    decide
  · rw [mountCount, (streams_crowded hwrap _).2]
    exact Nat.succ_pos 63

end Crowded

/-! ## Too many steps -/

/-- A node that does nothing but to take a step: a text or an element. -/
def filler : Bool → Node
  | true => .text "a"
  | false => .element "i" [] []

/-- So many fillers in front of an element to be found. -/
def longNodes (asText : Bool) (count : Nat) : List Node :=
  List.replicate count (filler asText) ++ [.element "b" [⟨.attr, "title", .bound ⟨0⟩⟩] []]

/-- A root with a paragraph of so many fillers. -/
def long (asText : Bool) (count : Nat) : Element where
  tag := "div"
  properties := []
  children := [.element "p" [] (longNodes asText count)]

/-- The scratch trees in the paragraph. -/
def longScratch (asText : Bool) (count : Nat) (slot : UInt32) : List Scratch :=
  List.replicate count (Scratch.ofNode 6 (filler asText)) ++
    [.element "b" [⟨.attr, "title", .bound ⟨0⟩⟩] 1 0 1 slot []]

section Long

variable (asText : Bool) (count : Nat)

theorem longNodes_succ :
    longNodes asText (count + 1) = filler asText :: longNodes asText count := by
  rw [longNodes, List.replicate_succ, List.cons_append]
  rfl

theorem placeholders_long : (long asText count).toNode.placeholders = ⟨[⟨0⟩]⟩ := by
  have hall : Node.targetsAll (longNodes asText count) = [⟨0⟩] := by
    induction count with
    | zero => rfl
    | succ count ih =>
        rw [longNodes_succ, Node.targetsAll, ih]
        cases asText <;> rfl
  have htargets : (long asText count).toNode.targets = [⟨0⟩] := by
    simp only [long, toNode, Node.targets, Node.targetsAll, hall]
    rfl
  rw [Node.placeholders, Node.register_eq, htargets]
  rfl

theorem longScratch_succ (slot : UInt32) :
    longScratch asText (count + 1) slot =
      Scratch.ofNode 6 (filler asText) :: longScratch asText count slot := by
  rw [longScratch, List.replicate_succ, List.cons_append]
  rfl

/-- A filler with something to find behind it leaves no trace but itself. -/
theorem scanChildren_filler {flags : UInt8} {rest : List Node}
    (h : (Scratch.scanChildren flags rest).siblings = 6) :
    Scratch.scanChildren flags (filler asText :: rest) =
      { Scratch.scanChildren flags rest with
        children := Scratch.ofNode 6 (filler asText) ::
          (Scratch.scanChildren flags rest).children } := by
  have hsolid : 6 ||| Flag.nextSolid.mask = 6 := by decide
  cases asText with
  | false =>
      have hstatic : (Scratch.ofNode 6 (.element "i" [] [])).isDynamic = false := by decide
      rw [filler, Scratch.scanChildren, h, hstatic]
      simp only [Flag.setIf, Bool.false_eq_true, if_false, hsolid]
      rw [← h]
  | true =>
      rw [filler, Scratch.scanChildren, h]
      simp only [hsolid]
      rw [← h]

theorem walkAll_filler (afterText : Bool) (rest : List Scratch) :
    Scratch.walkAll afterText false (Scratch.ofNode 6 (filler asText) :: rest) =
      .next :: Scratch.walkAll asText false rest := by
  cases asText <;> rfl

/-- The paragraph is dynamic, which is flag 1, and every filler has both flags about what follows it,
which are 6 together. -/
theorem scanChildren_long :
    Scratch.scanChildren 0 (longNodes asText count) =
      ⟨1, 6, 0, longScratch asText count 0⟩ := by
  induction count with
  | zero => rfl
  | succ count ih =>
      rw [longNodes_succ, scanChildren_filler asText (by rw [ih]), ih, longScratch_succ]

theorem numberAll_long :
    Scratch.numberAll false 1 (longScratch asText count 0) = (longScratch asText count 1, 2) := by
  induction count with
  | zero => rfl
  | succ count ih =>
      have hfiller : Scratch.number false 1 (Scratch.ofNode 6 (filler asText)) =
          (Scratch.ofNode 6 (filler asText), 1) := by
        cases asText <;> rfl
      have hsolid : (Scratch.ofNode 6 (filler asText)).isPlaceholder = false := by
        cases asText <;> rfl
      simp only [longScratch_succ, Scratch.numberAll, hfiller, hsolid, ih]

/-- The step over the element to be found, whatever its flags say. -/
theorem walkAll_found (afterText : Bool) (tag : String) (properties : List Property)
    (flags : UInt8) (slot : UInt32) :
    Scratch.walkAll afterText false [.element tag properties 1 0 flags slot []] = [.save] := by
  have hinner : (if Flag.dynamic.isIn flags then Scratch.walkAll false false [] else []) = [] := by
    split <;> rfl
  have hstep : Scratch.stepInto (false || (0 < (1 : UInt32) || 0 < (0 : UInt32))) [] = [.save] := by
    decide
  rw [Scratch.walkAll_element, hinner, hstep]
  simp only
  split <;> rfl

theorem walkAll_long (afterText : Bool) (slot : UInt32) :
    Scratch.walkAll afterText false (longScratch asText count slot) =
      List.replicate count .next ++ [.save] := by
  induction count generalizing afterText with
  | zero => exact walkAll_found afterText _ _ 1 slot
  | succ count ih => rw [longScratch_succ, walkAll_filler, ih, List.replicate_succ, List.cons_append]

theorem numberRoot_long :
    (Scratch.ofNode 0 (long asText count).toNode).numberRoot =
      (.element "div" [] 0 0 1 0
        [.element "p" [] 0 0 1 0 (longScratch asText count 1)], 2) := by
  have hparagraph : Scratch.ofNode 0 (.element "p" [] (longNodes asText count)) =
        .element "p" [] 0 0 1 0 (longScratch asText count 0) := by
    rw [Scratch.ofNode, scanChildren_long]
    rfl
  have hscan : Scratch.scanChildren 0 (long asText count).children =
      ⟨1, 6, 0, [.element "p" [] 0 0 1 0 (longScratch asText count 0)]⟩ := by
    have hdynamic : (Scratch.element "p" [] 0 0 1 0 (longScratch asText count 0)).isDynamic = true :=
      (by decide : Flag.dynamic.isIn 1 = true)
    have hflags : Flag.dynamic.setIf true 0 = 1 := by decide
    have hsiblings : Flag.nextDynamic.setIf true 0 ||| Flag.nextSolid.mask = 6 := by decide
    simp only [long, Scratch.scanChildren, hparagraph, hdynamic, hflags, hsiblings]
  rw [toNode, Scratch.ofNode, hscan]
  simp only [Scratch.numberRoot, Scratch.numberAll, Scratch.number, numberAll_long]
  rfl

theorem slotsGiven_long : (long asText count).slotsGiven = 2 := by
  rw [slotsGiven, numberRoot_long]
  rfl

/-- The step over a paragraph whose steps come to 0. -/
theorem stepInto_long {count : Nat} (hwrap : UInt32.ofNat (count + 1) = 0) :
    Scratch.stepInto false (List.replicate count .next ++ [.save]) =
      .next :: (List.replicate count .next ++ [.save]) := by
  have hlength : (List.replicate count WalkOp.next ++ [WalkOp.save]).length = count + 1 := by simp
  -- The test for an empty level sees the wrapped length, but the steps are there.
  rw [Scratch.stepInto, hlength, hwrap]
  rfl

/-- If the steps in the paragraph come to 0, it is not entered, and the last of the steps is taken
back in place of the one over the paragraph. -/
theorem walk_long (hwrap : UInt32.ofNat (count + 1) = 0) :
    (long asText count).scratch.walk = List.replicate (count + 1) .next := by
  have hretract : Scratch.retract (.next :: (List.replicate count .next ++ [.save])) =
      List.replicate (count + 1) .next := by
    rw [Scratch.retract, List.head?_cons, if_pos rfl, ← List.cons_append, List.dropLast_concat,
      ← List.replicate_succ]
  have hlast : (Scratch.element "p" [] 0 0 1 0 (longScratch asText count 1)).isLast = true := by
    rw [Scratch.isLast_eq]
    exact (by decide : (!(Flag.nextDynamic.isIn 1 && Flag.nextSolid.isIn 1)) = true)
  have hinner : (if Flag.dynamic.isIn 1 then
      Scratch.walkAll false false (longScratch asText count 1) else []) =
        List.replicate count .next ++ [.save] := walkAll_long asText count false 1
  rw [scratch, numberRoot_long, Scratch.walk, Scratch.walkAll_element, if_pos hlast, hinner]
  exact (congrArg Scratch.retract (stepInto_long hwrap)).trans hretract

theorem isNormal_long : (long false count).toNode.isNormal = true := by
  have hall : ∀ afterText, Node.areNormal afterText (longNodes false count) = true := by
    induction count with
    | zero => exact fun afterText => rfl
    | succ count ih =>
        intro afterText
        rw [longNodes_succ, filler, Node.areNormal_cons_of_not_text _ _ rfl, ih]
        rfl
  have hparagraph : (Node.element "p" [] (longNodes false count)).isNormal = true := hall false
  rw [toNode, long, Node.isNormal, Node.areNormal_cons_of_not_text _ _ rfl, hparagraph]
  rfl

theorem mountAll_long (inputs : Registry Placeholder) (slot : UInt32) :
    Scratch.mountAll inputs (longScratch asText count slot) = [] := by
  induction count with
  | zero => rfl
  | succ count ih =>
      rw [longScratch_succ, Scratch.mountAll, ih]
      cases asText <;> rfl

theorem exists_shell_long : ∃ shell, Shell.ofElement (long asText count) = .ok shell := by
  have hall : ∀ gap : Shell.Gap, ∃ parts, Shell.ofNodes ["div", "p"] gap
      (longNodes asText count) = .ok parts := by
    induction count with
    | zero => exact fun gap => ⟨_, rfl⟩
    | succ count ih =>
        intro gap
        obtain ⟨own, hown⟩ : ∃ own, Shell.ofNode ["div", "p"] (filler asText) = .ok own := by
          cases asText <;> exact ⟨_, rfl⟩
        obtain ⟨more, hmore⟩ := ih (gap.past (filler asText))
        rw [longNodes_succ, Shell.ofNodes, hown, hmore]
        exact ⟨_, rfl⟩
  obtain ⟨parts, hparts⟩ := hall .start
  have hparagraph : Shell.ofNode ["div"] (.element "p" [] (longNodes asText count)) =
        .ok (["<p", ">"] ++ parts ++ ["</p>"]) := by
    rw [Shell.ofNode]
    simp only [List.cons_append, List.nil_append, hparts]
    rfl
  rw [Shell.ofElement, toNode, long, Shell.ofNode, List.nil_append, Shell.ofNodes, hparagraph]
  exact ⟨_, rfl⟩

theorem exists_compile_long :
    ∃ shell, (long asText count).compile .html = .ok ((long asText count).blockOf .html shell) := by
  obtain ⟨shell, hshell⟩ := exists_shell_long asText count
  refine ⟨shell, compile_eq_ok .html ?_ hshell ?_ ?_⟩
  · rw [placeholders_long]
    exact Nat.le_add_left 1 63
  · rw [slotsGiven_long]
    decide
  · rw [mountCount, scratch, numberRoot_long, Scratch.mountStream, Scratch.mount,
      Scratch.mountAll, Scratch.mount, mountAll_long]
    exact Nat.succ_pos 63

end Long

end Element

end DomTemplate

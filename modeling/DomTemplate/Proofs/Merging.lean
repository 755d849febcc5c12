import Mathlib
import DomTemplate.Proofs.Alike
import DomTemplate.Proofs.WalkTrace

/-!
# Merging texts beforehand

Neighbouring texts become one text when markup is parsed, and normalising a root merges them before
it is compiled.  Without empty texts it does nothing else, and a block does not depend on it much:
the markup, the bindings, the insertions and the slots are the same, and so is the reason if the
root is refused.  Only the walk and the way in which the markup is cut into chunks may change.

An empty text is another matter.  Normalising drops it, and with it the slot that it may have had.
-/

namespace DomTemplate

/-! ## Merged siblings -/

namespace Node

mutual

/-- Whether no text at or below a node is empty. -/
def isFilled : Node → Bool
  | element _ _ children => areFilled children
  | text value => value ≠ ""
  | placeholder _ => true

def areFilled : List Node → Bool
  | [] => true
  | node :: rest => isFilled node && areFilled rest

end

/-- The second list has come from the first by merging neighbouring texts. -/
inductive Merges : List Node → List Node → Prop where
  | nil : Merges [] []
  | element {tag : String} {properties : List Property} {children children' rest rest' : List Node}
      (hchildren : Merges children children') (hrest : Merges rest rest') :
      Merges (element tag properties children :: rest) (element tag properties children' :: rest')
  | text {value : String} {rest rest' : List Node} (hrest : Merges rest rest') :
      Merges (text value :: rest) (text value :: rest')
  | merge {first second : String} {rest others : List Node}
      (h : Merges (text (first ++ second) :: rest) others) :
      Merges (text first :: text second :: rest) others
  | placeholder {target : Placeholder} {rest rest' : List Node} (hrest : Merges rest rest') :
      Merges (placeholder target :: rest) (placeholder target :: rest')

namespace Merges

variable {nodes others : List Node}

theorem flush_append (pending : String) (h : Merges nodes others) :
    Merges (flush pending ++ nodes) (flush pending ++ others) := by
  rw [flush]
  split
  · exact h
  · exact .text h

/-- Merging does not change what is bound and where. -/
theorem alike (h : Merges nodes others) : Alike id true nodes others := by
  induction h with
  | nil => exact .nil
  | element hchildren hrest ihchildren ihrest =>
      exact .element (Property.alike_self _) ihchildren ihrest
  | text hrest ih => exact .text ih
  | merge h ih => exact .merge rfl ih
  | placeholder hrest ih => exact .placeholder ih

theorem isEmpty_eq (h : Merges nodes others) : others.isEmpty = nodes.isEmpty := by
  induction h with
  | merge h ih => exact ih
  | _ => rfl

/-- Merging makes nothing larger. -/
theorem counts_le (h : Merges nodes others) :
    nodeCountAll others ≤ nodeCountAll nodes ∧ propertyCountAll others ≤ propertyCountAll nodes := by
  induction h with
  | nil => exact ⟨Nat.le_refl _, Nat.le_refl _⟩
  | element hchildren hrest ihchildren ihrest =>
      simp only [nodeCountAll, nodeCount, propertyCountAll, propertyCount]
      omega
  | text hrest ih =>
      simp only [nodeCountAll, nodeCount, propertyCountAll, propertyCount]
      omega
  | merge h ih =>
      simp only [nodeCountAll, nodeCount, propertyCountAll, propertyCount] at ih ⊢
      omega
  | placeholder hrest ih =>
      simp only [nodeCountAll, nodeCount, propertyCountAll, propertyCount]
      omega

end Merges

/-- Normalising only merges, if there is no empty text to drop.  The pending text counts as one more
text in front. -/
theorem merges_normalizeFrom :
    ∀ (pending : String) (nodes : List Node), areFilled nodes = true →
      Merges (flush pending ++ nodes) (normalizeFrom pending nodes)
  | pending, [], _ => by
      rw [normalizeFrom, List.append_nil]
      simpa using Merges.nil.flush_append pending
  | pending, text value :: rest, h => by
      simp only [areFilled, isFilled, Bool.and_eq_true, decide_eq_true_eq] at h
      obtain ⟨hvalue, hrest⟩ := h
      -- What is pending now will be written in the end, since it is not empty.
      have hlonger : pending ++ value ≠ "" := by simp [hvalue]
      have hmerged := merges_normalizeFrom (pending ++ value) rest hrest
      rw [flush, if_neg hlonger] at hmerged
      rw [normalizeFrom]
      by_cases hpending : pending = ""
      · subst hpending
        simpa [flush] using hmerged
      · rw [flush, if_neg hpending]
        exact .merge hmerged
  | pending, element tag properties children :: rest, h => by
      simp only [areFilled, isFilled, Bool.and_eq_true] at h
      have hchildren := merges_normalizeFrom "" children h.1
      have hrest := merges_normalizeFrom "" rest h.2
      rw [normalizeFrom]
      · exact .flush_append pending (.element hchildren hrest)
      · simp
  | pending, placeholder target :: rest, h => by
      simp only [areFilled, isFilled, Bool.true_and] at h
      have hrest := merges_normalizeFrom "" rest h
      rw [normalizeFrom]
      · exact .flush_append pending (.placeholder hrest)
      · simp

end Node

/-! ## Markup -/

section Views

variable {ε α β γ δ : Type} {x y : Except ε α} {view : α → γ}

/-- Two computations that agree in what is seen of them both fail or both succeed. -/
theorem cases_of_map_eq (h : x.map view = y.map view) :
    (∃ fault, x = .error fault ∧ y = .error fault) ∨
      ∃ a b, x = .ok a ∧ y = .ok b ∧ view a = view b := by
  cases x with
  | error fault =>
      cases y with
      | error other =>
          obtain rfl : fault = other := Except.error.inj h
          exact .inl ⟨fault, rfl, rfl⟩
      | ok b => cases h
  | ok a =>
      cases y with
      | error other => cases h
      | ok b => exact .inr ⟨a, b, rfl, rfl, Except.ok.inj h⟩

/-- They still agree after a next step that depends on nothing else. -/
theorem map_bind_congr {step step' : α → Except ε β} {view' : β → δ} (h : x.map view = y.map view)
    (hstep : ∀ a b, view a = view b → (step a).map view' = (step' b).map view') :
    (x >>= step).map view' = (y >>= step').map view' := by
  rcases cases_of_map_eq h with ⟨fault, rfl, rfl⟩ | ⟨a, b, rfl, rfl, hview⟩
  · rfl
  · exact hstep a b hview

end Views

namespace Shell

/-- What chunks of markup amount to: whether there are any, and the markup in one piece. -/
def gist (parts : List String) : Bool × String :=
  (parts.isEmpty, String.join parts)

theorem gist_append (parts more : List String) :
    gist (parts ++ more) =
      ((gist parts).1 && (gist more).1, (gist parts).2 ++ (gist more).2) := by
  cases parts <;> simp [gist, String.append_assoc]

/-- The markup of siblings, by that of the first and of the others. -/
theorem gist_ofNodes_cons {path : List String} {gap : Gap} {node node' : Node}
    {rest rest' : List Node} (hown : (ofNode path node').map gist = (ofNode path node).map gist)
    (hpast : gap.past node' = gap.past node)
    (hseparators : gap.separators node' = gap.separators node)
    (hrest : (ofNodes path (gap.past node) rest').map gist =
      (ofNodes path (gap.past node) rest).map gist) :
    (ofNodes path gap (node' :: rest')).map gist = (ofNodes path gap (node :: rest)).map gist := by
  rw [ofNodes, ofNodes, hpast, hseparators]
  refine map_bind_congr hown fun own own' hgist => ?_
  refine map_bind_congr hrest fun more more' hmore => ?_
  simp only [Except.map, gist_append, hgist, hmore]

/-- A separator may stand before the first of two neighbouring texts, but never between them. -/
theorem gist_ofNodes_merge (path : List String) (gap : Gap) (first second : String)
    (rest : List Node) :
    (ofNodes path gap (.text (first ++ second) :: rest)).map gist =
      (ofNodes path gap (.text first :: .text second :: rest)).map gist := by
  have hpast (value : String) (gap : Gap) : gap.past (.text value) = ⟨true, false⟩ := rfl
  have hnone : Gap.separators ⟨true, false⟩ (.text second) = [] := rfl
  have hsame : gap.separators (.text (first ++ second)) = gap.separators (.text first) := rfl
  simp only [ofNodes, ofNode, hpast, hnone, hsame]
  cases ofNodes path ⟨true, false⟩ rest with
  | error path => rfl
  | ok more =>
      simp only [bind, Except.bind, Except.map, gist_append]
      simp [gist, String.append_assoc]

/-- Merging texts does not change the markup, nor for which element it is refused. -/
theorem gist_ofNodes {nodes others : List Node} (h : Node.Merges nodes others)
    (path : List String) (gap : Gap) :
    (ofNodes path gap others).map gist = (ofNodes path gap nodes).map gist := by
  induction h generalizing path gap with
  | nil => rfl
  | @element tag properties children children' rest rest' hchildren hrest ihchildren ihrest =>
      refine gist_ofNodes_cons ?_ rfl rfl (ihrest path _)
      rw [ofNode, ofNode]
      by_cases hvoid : isVoid tag = true
      · rw [if_pos hvoid, if_pos hvoid, hchildren.isEmpty_eq]
      · -- Both tags are the same, and between them the induction is on the children.
        rw [if_neg hvoid, if_neg hvoid]
        refine map_bind_congr (ihchildren _ .start) fun inner inner' hgist => ?_
        simp only [Except.map, gist_append, hgist]
  | text hrest ih => exact gist_ofNodes_cons rfl rfl rfl (ih path _)
  | merge h ih => exact (ih path gap).trans (gist_ofNodes_merge path gap _ _ _)
  | placeholder hrest ih => exact gist_ofNodes_cons rfl rfl rfl (ih path _)

/-- The markup of a root that has a closing tag. -/
theorem ofNode_of_not_void {name : String} (hvoid : ¬ isVoid name = true)
    (properties : List Property) (children : List Node) :
    ofNode [] (.element name properties children) =
      (ofNodes [name] .start children).map fun inner =>
        openTag name properties ++ inner ++ ["</" ++ name ++ ">"] := by
  rw [ofNode, if_neg hvoid, List.nil_append]
  cases ofNodes [name] .start children <;> rfl

/-- A shell is not kept as its tag if there is something between the opening and the closing tag. -/
theorem ofParts_eq_tag_iff (name : String) (properties : List Property) (inner : List String)
    (closing tag : String) :
    ofParts name (openTag name properties ++ inner ++ [closing]) = .tag tag ↔
      inner.isEmpty = true ∧ ofParts name (openTag name properties ++ [closing]) = .tag tag := by
  cases inner with
  | nil => simp
  | cons part rest =>
      have hlength : 3 < (openTag name properties ++ part :: rest ++ [closing]).length := by
        simp only [openTag_eq, List.length_append, List.length_cons, List.length_nil]
        omega
      rw [ofParts, decide_eq_false (Nat.not_le.mpr hlength)]
      simp

/-- Two shells that differ in nothing but how their markup is cut. -/
def SameMarkup (shell other : Shell) : Prop :=
  shell.markup = other.markup ∧ ∀ name, shell = .tag name ↔ other = .tag name

theorem sameMarkup_refl (shell : Shell) : shell.SameMarkup shell :=
  ⟨rfl, fun _ => Iff.rfl⟩

end Shell

namespace Element

theorem shell_of_ofNode_ok {e : Element} {parts : List String}
    (h : Shell.ofNode [] e.toNode = .ok parts) : e.shell = .ok (Shell.ofParts e.tag parts) := by
  rw [shell, Shell.ofElement, h]
  rfl

theorem shell_of_ofNode_error {e : Element} {path : List String}
    (h : Shell.ofNode [] e.toNode = .error path) :
    e.shell = .error ⟨0, path, .voidElementChildren (path.getLast?.getD "")⟩ := by
  rw [shell, Shell.ofElement, h]
  rfl

/-- The markup of a shell is that of its parts, also if it is kept as a tag. -/
theorem markup_ofParts {e : Element} {parts : List String}
    (h : Shell.ofNode [] e.toNode = .ok parts) :
    (Shell.ofParts e.tag parts).markup = String.join parts := by
  have hshell := (e.shell_eq_ok_iff _).mp (shell_of_ofNode_ok h)
  have hparts : Dom.partsAll (fun _ => "") (e.toNode.clone [] : List (Dom NodeId Unit)) = parts :=
    Node.partsAll_clone _ [] h
  rw [← e.markup_clone (fun _ : Unit => "") hshell, ← hparts]
  simp [Dom.markup, Node.clone, toNode, clone, Dom.partsAll]

/-! ## Root elements in normal form -/

/-- The root element in normal form. -/
def normalized (e : Element) : Element :=
  ⟨e.tag, e.properties, Node.normalize e.children⟩

section Filled

variable {e : Element} (hfilled : e.toNode.isFilled = true)

include hfilled

theorem merges_normalized : Node.Merges e.children e.normalized.children :=
  Node.merges_normalizeFrom "" e.children hfilled

theorem alike_normalized : e.Alike id true e.normalized :=
  ⟨Property.alike_self e.properties, (merges_normalized hfilled).alike⟩

/-- Nothing of the children of a void element is written, so it only matters whether it has any. -/
theorem shell_normalized_of_void (hvoid : isVoid e.tag = true) : e.normalized.shell = e.shell := by
  have hparts : Shell.ofNode [] e.normalized.toNode = Shell.ofNode [] e.toNode := by
    rw [toNode, toNode, Shell.ofNode, Shell.ofNode, (merges_normalized hfilled).isEmpty_eq]
    rw [normalized, if_pos hvoid, if_pos hvoid]
  rw [shell, shell, Shell.ofElement, Shell.ofElement, hparts]
  rfl

/-- The shells with and without merging are refused for the same element or have the same markup. -/
theorem shell_normalized :
    (∃ refusal, e.shell = .error refusal ∧ e.normalized.shell = .error refusal) ∨
      ∃ shell other, e.shell = .ok shell ∧ e.normalized.shell = .ok other ∧
        shell.SameMarkup other := by
  by_cases hvoid : isVoid e.tag = true
  · rw [shell_normalized_of_void hfilled hvoid]
    cases e.shell with
    | error refusal => exact .inl ⟨refusal, rfl, rfl⟩
    | ok own => exact .inr ⟨own, own, rfl, rfl, own.sameMarkup_refl⟩
  · have hparts : Shell.ofNode [] e.toNode = _ :=
      Shell.ofNode_of_not_void hvoid e.properties e.children
    have hparts' : Shell.ofNode [] e.normalized.toNode = _ :=
      Shell.ofNode_of_not_void hvoid e.properties e.normalized.children
    have hgist := Shell.gist_ofNodes (merges_normalized hfilled) [e.tag] .start
    rcases cases_of_map_eq hgist with ⟨path, hinner', hinner⟩ |
      ⟨inner', inner, hinner', hinner, hsame⟩
    · rw [hinner] at hparts
      rw [hinner'] at hparts'
      exact .inl ⟨_, shell_of_ofNode_error hparts, shell_of_ofNode_error hparts'⟩
    · rw [hinner, Except.map] at hparts
      rw [hinner', Except.map] at hparts'
      obtain ⟨hempty, hjoin⟩ := Prod.mk.inj hsame
      have hmarkup := markup_ofParts hparts
      have hmarkup' := markup_ofParts hparts'
      refine .inr ⟨_, _, shell_of_ofNode_ok hparts, shell_of_ofNode_ok hparts', ?_, ?_⟩
      · rw [hmarkup, hmarkup']
        simp only [String.join_append, hjoin]
      · intro name
        have htag : e.normalized.tag = e.tag := rfl
        rw [htag, Shell.ofParts_eq_tag_iff, Shell.ofParts_eq_tag_iff, hempty]

theorem fitsWords_normalized (h : e.toNode.FitsWords) : e.normalized.toNode.FitsWords := by
  have hcounts := (merges_normalized hfilled).counts_le
  have hnodes := h.nodes
  have hproperties := h.properties
  simp only [toNode, Node.nodeCount, Node.propertyCount] at hnodes hproperties
  constructor
  · simp only [toNode, Node.nodeCount]
    omega
  · simp only [toNode, Node.propertyCount, normalized] at hcounts ⊢
    omega

end Filled

theorem exists_checked_error (e : Element) (refusal : Refusal) :
    ∃ own, e.checked (.error refusal) = .error own := by
  rw [checked]
  cases e.require .expressions e.toNode.placeholders.size with
  | error own => exact ⟨own, rfl⟩
  | ok _ => exact ⟨refusal, rfl⟩

/-- A shell that has been written is not looked at, so either all of them are refused or none. -/
theorem checked_ok_cases (e : Element) :
    (∃ refusal, ∀ shell, e.checked (.ok shell) = .error refusal) ∨
      ∀ shell, e.checked (.ok shell) = .ok shell := by
  simp only [checked]
  cases e.require .expressions e.toNode.placeholders.size with
  | error refusal => exact .inl ⟨refusal, fun _ => rfl⟩
  | ok _ =>
      cases e.require .stateSlots e.slotsGiven with
      | error refusal => exact .inl ⟨refusal, fun _ => rfl⟩
      | ok _ =>
          cases e.require .childSlots e.mountCount with
          | error refusal => exact .inl ⟨refusal, fun _ => rfl⟩
          | ok _ => exact .inr fun _ => rfl

theorem normalizeRoot_toNode (e : Element) : e.toNode.normalizeRoot = e.normalized.toNode := by
  rw [toNode, Node.normalizeRoot]
  rfl

/-- A root element without empty texts is refused for the same reason with and without merging, or
compiles both ways. -/
theorem compile_normalized {e : Element} (hfilled : e.toNode.isFilled = true) (dialect : Dialect) :
    (∃ refusal, e.toNode.compile dialect = .error refusal ∧
        e.toNode.normalizeRoot.compile dialect = .error refusal) ∨
      ∃ shell other, e.toNode.compile dialect = .ok (.block (e.blockOf dialect shell)) ∧
        e.toNode.normalizeRoot.compile dialect =
          .ok (.block (e.normalized.blockOf dialect other)) ∧ shell.SameMarkup other := by
  have hchecked := (alike_normalized hfilled).checked_eq (Set.injOn_id _) rfl
  rw [normalizeRoot_toNode, compile_toNode, compile_toNode, hchecked]
  rcases shell_normalized hfilled with ⟨refusal, hshell, hshell'⟩ |
    ⟨shell, other, hshell, hshell', hmarkup⟩
  · -- Placeholders are counted before the shell is written, so `refusal` need not be what shows.
    obtain ⟨own, hown⟩ := e.exists_checked_error refusal
    rw [hshell, hshell', hown]
    exact .inl ⟨own, rfl, rfl⟩
  · rw [hshell, hshell']
    rcases e.checked_ok_cases with ⟨refusal, hrefused⟩ | hpassed
    · rw [hrefused, hrefused]
      exact .inl ⟨refusal, rfl, rfl⟩
    · rw [hpassed, hpassed]
      exact .inr ⟨shell, other, rfl, rfl, hmarkup⟩

end Element

/-- A root element without empty texts is refused for the same reason with and without merging, or
compiles both ways to blocks with the same header, markup, bindings, insertions, keys and inputs.
Only how the markup is cut into chunks and the steps of the walk may differ.  The walks fill as many
slots if words can count the tree. -/
theorem compile_agrees_with_merging (e : Element) (dialect : Dialect)
    (hfilled : e.toNode.isFilled = true) :
    (∃ refusal, e.toNode.compile dialect = .error refusal ∧
        e.toNode.normalizeRoot.compile dialect = .error refusal) ∨
      ∃ block other, e.toNode.compile dialect = .ok (.block block) ∧
        e.toNode.normalizeRoot.compile dialect = .ok (.block other) ∧
        block.flags = other.flags ∧ block.shell.markup = other.shell.markup ∧
        (∀ name, block.shell = .tag name ↔ other.shell = .tag name) ∧
        block.binds = other.binds ∧ block.mounts = other.mounts ∧ block.keys = other.keys ∧
        block.inputs = other.inputs ∧
        (e.toNode.FitsWords → countWalkSlots block.walk = countWalkSlots other.walk) := by
  have halike := Element.alike_normalized hfilled
  have hinj : Set.InjOn id {target | target ∈ e.toNode.targets} := Set.injOn_id _
  rcases Element.compile_normalized hfilled dialect with hrefused |
    ⟨shell, other, hblock, hother, hmarkup, htag⟩
  · exact .inl hrefused
  · refine .inr ⟨_, _, hblock, hother, ?_, hmarkup, htag, ?_, ?_, ?_, ?_, fun hfits => ?_⟩
    · simp only [Element.blockOf, halike.slotsGiven_eq hinj, halike.mountCount_eq hinj]
    · simp only [Element.blockOf, halike.bindStream_eq hinj]
    · simp only [Element.blockOf, halike.mountStream_eq hinj]
    · simp only [Element.blockOf, halike.bindStream_eq hinj]
    · simp only [Element.blockOf, halike.placeholders_eq hinj, Registry.map, List.map_id]
    · -- Both walks fill the slots that have been given out.
      simp only [Element.blockOf, Element.countWalkSlots_walk hfits, Element.countWalkSlots_walk
        (Element.fitsWords_normalized hfilled hfits), halike.slotsGiven_eq hinj]

/-- A paragraph with neighbouring texts in front of a placeholder, behind it and below. -/
def Element.torn : Element where
  tag := "p"
  properties := []
  children := [.text "a", .text "b", .placeholder ⟨1⟩, .text "c", .text "d",
    .element "b" [⟨.attr, "title", .bound ⟨1⟩⟩] [.text "e", .text "f"]]

theorem compile_torn :
    Element.torn.toNode.isFilled = true ∧
      ∃ block other, Element.torn.toNode.compile .html = .ok (.block block) ∧
        Element.torn.toNode.normalizeRoot.compile .html = .ok (.block other) ∧
        block.walk = [.next, .next, .remove, .next, .save] ∧
        other.walk = [.next, .remove, .save] ∧
        block.shell ≠ other.shell ∧ block.shell.markup = "<p>ab<!>cd<b>ef</b></p>" ∧
        block.shell.markup = other.shell.markup ∧ block.mounts = other.mounts := by
  have hfilled : Element.torn.toNode.isFilled = true := by decide
  refine ⟨hfilled, ?_⟩
  rcases compile_agrees_with_merging Element.torn .html hfilled with ⟨refusal, hrefused, -⟩ |
    ⟨block, other, hblock, hother, -, hmarkup, -, -, hmounts, -⟩
  · cases hrefused
  · cases hblock
    cases hother
    exact ⟨_, _, rfl, rfl, by decide, by decide, by decide, by decide, hmarkup, hmounts⟩

namespace Element

theorem isFilled_long (count : Nat) : (long true count).toNode.isFilled = true := by
  have hall : Node.areFilled (longNodes true count) = true := by
    induction count with
    | zero => rfl
    | succ count ih =>
        rw [longNodes_succ, Node.areFilled, ih]
        rfl
  simp only [long, toNode, Node.isFilled, Node.areFilled, hall, Bool.and_self]

/-- All the texts of a long paragraph become one. -/
theorem exists_normalizeFrom_long (pending : String) (count : Nat) :
    ∃ value, Node.normalizeFrom pending (longNodes true count) =
      Node.flush value ++ longNodes true 0 := by
  induction count generalizing pending with
  | zero => exact ⟨pending, by simp [longNodes, Node.normalizeFrom, Node.normalizeRoot, Node.flush]⟩
  | succ count ih =>
      obtain ⟨value, hvalue⟩ := ih (pending ++ "a")
      exact ⟨value, by rw [longNodes_succ, filler, Node.normalizeFrom]; exact hvalue⟩

theorem fitsWords_normalized_long (count : Nat) : (long true count).normalized.toNode.FitsWords := by
  obtain ⟨value, hvalue⟩ := exists_normalizeFrom_long "" count
  have hchildren : (long true count).normalized.children =
      [.element "p" [] (Node.flush value ++ longNodes true 0)] := by
    rw [← hvalue, normalized, long]
    simp [Node.normalize, Node.normalizeFrom, Node.normalizeRoot, Node.flush]
  rw [toNode, hchildren, Node.flush]
  split <;> constructor <;> simp [normalized, long, longNodes, Node.nodeCount, Node.nodeCountAll,
    Node.propertyCount, Node.propertyCountAll]

end Element

/-- In front of an element that has to be found, merging 2 ^ 32 - 1 texts saves its step in the walk.
Without merging the step is lost. -/
theorem step_behind_long_text_lost :
    (Element.long true (2 ^ 32 - 1)).toNode.isFilled = true ∧
      ∃ block other,
        (Element.long true (2 ^ 32 - 1)).toNode.compile .html = .ok (.block block) ∧
        (Element.long true (2 ^ 32 - 1)).toNode.normalizeRoot.compile .html = .ok (.block other) ∧
        countWalkSlots block.walk = 1 ∧ countWalkSlots other.walk = 2 := by
  have hlong : ∀ count, UInt32.ofNat (count + 1) = 0 →
      (Element.long true count).toNode.isFilled = true ∧
        ∃ block other, (Element.long true count).toNode.compile .html = .ok (.block block) ∧
          (Element.long true count).toNode.normalizeRoot.compile .html = .ok (.block other) ∧
          countWalkSlots block.walk = 1 ∧ countWalkSlots other.walk = 2 := by
    intro count hwrap
    have hfilled := Element.isFilled_long count
    have hslots := (Element.alike_normalized hfilled).slotsGiven_eq (Set.injOn_id _)
    refine ⟨hfilled, ?_⟩
    rcases Element.compile_normalized hfilled .html with ⟨refusal, hrefused, -⟩ |
      ⟨shell, other, hblock, hother, -⟩
    · obtain ⟨shell, hblock⟩ := Element.exists_compile_long true count
      have hnode : (Element.long true count).toNode.compile .html =
          ((Element.long true count).compile .html).map Root.block := rfl
      rw [hnode, hblock] at hrefused
      cases hrefused
    · refine ⟨_, _, hblock, hother, ?_, ?_⟩
      · simp [Element.blockOf, Element.walk_long true count hwrap, countWalkSlots,
          List.countP_replicate, WalkOp.takesSlot]
      · rw [Element.blockOf, Element.countWalkSlots_walk (Element.fitsWords_normalized_long count),
          hslots, Element.slotsGiven_long]
  exact hlong _ (by decide)

end DomTemplate

import Mathlib
import DomTemplate.Tree.Normal

/-!
# Normal forms

A root is in normal form if below it no text is empty and no two texts are neighbours.  Normalising
gives such a root.
-/

namespace DomTemplate

namespace Node

theorem isPlaceholder_iff (node : Node) :
    node.isPlaceholder = true ↔ ∃ target, node = placeholder target := by
  cases node <;> simp [isPlaceholder]

mutual

/-- Whether what stands below a node is in normal form.  A text at the root may be empty. -/
def isNormal : Node → Bool
  | element _ _ children => areNormal false children
  | text _ => true
  | placeholder _ => true

/-- Whether siblings are in normal form, of which the first comes right after a text if
`afterText`. -/
def areNormal (afterText : Bool) : List Node → Bool
  | [] => true
  | node :: rest =>
    match node with
    | text value => value ≠ "" && !afterText && areNormal true rest
    | _ => isNormal node && areNormal false rest

end

theorem areNormal_text (afterText : Bool) (value : String) (rest : List Node) :
    areNormal afterText (text value :: rest) =
      (value ≠ "" && !afterText && areNormal true rest) := by
  rw [areNormal]

theorem areNormal_cons_of_not_text {node : Node} (afterText : Bool) (rest : List Node)
    (hnode : node.isText = false) :
    areNormal afterText (node :: rest) = (node.isNormal && areNormal false rest) := by
  cases node with
  | element tag properties children => rw [areNormal]; simp
  | text value => simp [isText] at hnode
  | placeholder target => rw [areNormal]; simp

/-- In front of a node that is not a text, the pending text may be written down. -/
theorem areNormal_flush_append {node : Node} {rest : List Node} (pending : String)
    (hnode : node.isText = false) (hnormal : node.isNormal = true)
    (hrest : areNormal false rest = true) :
    areNormal false (flush pending ++ node :: rest) = true := by
  unfold flush
  split
  · simp [areNormal_cons_of_not_text _ _ hnode, hnormal, hrest]
  · rename_i hpending
    simp [areNormal_text, areNormal_cons_of_not_text _ _ hnode, hpending, hnormal, hrest]

mutual

/-- Normalising a root gives a normal form. -/
theorem isNormal_normalizeRoot : ∀ node : Node, node.normalizeRoot.isNormal = true
  | element tag properties children => by
      rw [normalizeRoot, isNormal]
      exact areNormal_normalizeFrom "" children
  | text value => rfl
  | placeholder target => rfl

/-- The pending text is not yet written down, so nothing stands in front of the result. -/
theorem areNormal_normalizeFrom (pending : String) :
    ∀ nodes : List Node, areNormal false (normalizeFrom pending nodes) = true
  | [] => by
      unfold normalizeFrom flush
      split
      · rfl
      · rename_i hpending
        simp [areNormal, hpending]
  | text value :: rest => by
      rw [normalizeFrom]
      exact areNormal_normalizeFrom (pending ++ value) rest
  | element tag properties children :: rest => by
      rw [normalizeFrom]
      · exact areNormal_flush_append pending rfl (isNormal_normalizeRoot _)
          (areNormal_normalizeFrom "" rest)
      · simp
  | placeholder target :: rest => by
      rw [normalizeFrom]
      · exact areNormal_flush_append pending rfl rfl (areNormal_normalizeFrom "" rest)
      · simp

end

end Node

/-- A paragraph in normal form with placeholders between two texts, before a text and at the end,
one of which is bound to a property of the paragraph as well. -/
def Element.paragraph : Element where
  tag := "p"
  properties := [⟨.attr, "class", .bound ⟨7⟩⟩]
  children := [.text "a", .placeholder ⟨3⟩, .text "b",
    .element "b" [⟨.attr, "title", .bound ⟨3⟩⟩] [.placeholder ⟨7⟩, .text "c"], .placeholder ⟨9⟩]

end DomTemplate

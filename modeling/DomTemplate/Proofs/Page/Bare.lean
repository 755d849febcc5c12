import Mathlib
import DomTemplate.Proofs.Page.Clone

/-!
# Clones without separators

What the walk leaves of the clone of a root: the same elements and texts, and no separator.
-/

namespace DomTemplate

variable {ν : Type}

namespace Node

mutual

/-- What is left of a node in the clone once the separators have been taken out. -/
def bare (place : List Nat) : Node → List (Dom NodeId ν)
  | element tag properties children =>
    [.element (.cloned place) tag (.ofProperties properties) [] (bareAll place 0 children)]
  | text value => [.text (.cloned place) value]
  | placeholder _ => []

def bareAll (place : List Nat) (index : Nat) : List Node → List (Dom NodeId ν)
  | [] => []
  | node :: rest => bare (place ++ [index]) node ++ bareAll place (index + 1) rest

end

end Node

/-- The clone of an element without its separators. -/
def Element.bare (e : Element) : Dom NodeId ν :=
  .element (.cloned []) e.tag (.ofProperties e.properties) [] (Node.bareAll [] 0 e.children)

namespace Dom

theorem sweepAll_append {ι : Type} (nodes more : List (Dom ι ν)) :
    sweepAll (nodes ++ more) = sweepAll nodes ++ sweepAll more := by
  induction nodes with
  | nil => rfl
  | cons node rest ih =>
      simp only [List.cons_append, sweepAll, ih]
      split <;> simp

theorem anySeparator_append {ι : Type} (nodes more : List (Dom ι ν)) :
    anySeparator (nodes ++ more) = (anySeparator nodes || anySeparator more) := by
  induction nodes with
  | nil => rfl
  | cons node rest ih => simp [anySeparator, ih, Bool.or_assoc]

end Dom

namespace Node

theorem sweepAll_separators (gap : Shell.Gap) (node : Node) (id : NodeId) :
    Dom.sweepAll ((gap.separators node).map fun _ => (.separator id : Dom NodeId ν)) = [] := by
  rcases separators_cases (ν := ν) gap node id with h | ⟨-, h⟩
  · rw [h]
    rfl
  · rw [h]
    rfl

mutual

theorem sweepAll_clone (place : List Nat) :
    ∀ node : Node, Dom.sweepAll (clone place node : List (Dom NodeId ν)) = bare place node
  | element tag properties children => by
      simp [clone, bare, Dom.sweepAll, Dom.sweep, Dom.isSeparator, sweepAll_cloneAll]
  | text value => rfl
  | placeholder target => rfl

theorem sweepAll_cloneAll (place : List Nat) (index : Nat) (gap : Shell.Gap) :
    ∀ nodes : List Node,
      Dom.sweepAll (cloneAll place index gap nodes : List (Dom NodeId ν)) =
        bareAll place index nodes
  | [] => rfl
  | node :: rest => by
      rw [cloneAll, bareAll, Dom.sweepAll_append, Dom.sweepAll_append, sweepAll_separators,
        sweepAll_clone, sweepAll_cloneAll, List.nil_append]

end

mutual

theorem anySeparator_bare (place : List Nat) :
    ∀ node : Node, Dom.anySeparator (bare place node : List (Dom NodeId ν)) = false
  | element tag properties children => by
      simp [bare, Dom.anySeparator, Dom.hasSeparator, anySeparator_bareAll]
  | text value => rfl
  | placeholder target => rfl

theorem anySeparator_bareAll (place : List Nat) (index : Nat) :
    ∀ nodes : List Node, Dom.anySeparator (bareAll place index nodes : List (Dom NodeId ν)) = false
  | [] => rfl
  | node :: rest => by
      rw [bareAll, Dom.anySeparator_append, anySeparator_bare, anySeparator_bareAll, Bool.or_false]

end

end Node

theorem Element.bare_eq_sweep (e : Element) :
    (e.bare : Dom NodeId ν) = (e.clone : Dom NodeId ν).sweep := by
  rw [clone, bare, Dom.sweep, Node.sweepAll_cloneAll]

end DomTemplate

import Mathlib
import DomTemplate.Proofs.Page.Clone
import DomTemplate.Proofs.Page.Journal

/-!
# Journals along a template

The streams of a block change the elements of a template one after the other.  Their journals are
built like the tree: the changes to an element come first, then those to its children, who take
their turns from left to right or from right to left.  In such a journal the changes to an element
can be found by its place alone, since no other part of the tree has nodes there.
-/

namespace DomTemplate.Node

variable {ν : Type} (R : List Nat → List Property → List Node → List (Change ν) → Prop)

mutual

/-- A journal of the changes to a node and to what stands below it, where `R` says what changes an
element may have, given its place, its properties and its children. -/
def Chronicle (place : List Nat) : Node → List (NodeId × Change ν) → Prop
  | element _ properties children, journal =>
    ∃ own inner, R place properties children own ∧ ChronicleAll place 0 children inner ∧
      journal = own.map (fun c => (.cloned place, c)) ++ inner
  | text _, journal => journal = []
  | placeholder _, journal => journal = []

/-- The same for the children of the element at `place` from number `index` on. -/
def ChronicleAll (place : List Nat) (index : Nat) : List Node → List (NodeId × Change ν) → Prop
  | [], journal => journal = []
  | node :: rest, journal =>
    ∃ own more, Chronicle (place ++ [index]) node own ∧ ChronicleAll place (index + 1) rest more ∧
      (journal = own ++ more ∨ journal = more ++ own)

end

mutual

/-- Every element at and below a node has the changes in a journal that `R` asks for. -/
def ChangedBy (journal : List (NodeId × Change ν)) (place : List Nat) : Node → Prop
  | element _ properties children =>
    R place properties children (Dom.concerning (.cloned place) journal) ∧
      ChangedByAll journal place 0 children
  | text _ => True
  | placeholder _ => True

def ChangedByAll (journal : List (NodeId × Change ν)) (place : List Nat) (index : Nat) :
    List Node → Prop
  | [] => True
  | node :: rest =>
    ChangedBy journal (place ++ [index]) node ∧ ChangedByAll journal place (index + 1) rest

end

variable {R}

/-! ## A journal stays in its part of the tree -/

mutual

theorem Chronicle.within {place : List Nat} {journal : List (NodeId × Change ν)}
    {entry : NodeId × Change ν} :
    ∀ {node : Node}, Chronicle R place node journal → entry ∈ journal → entry.1.Within place
  | element tag properties children, h, hentry => by
      obtain ⟨own, inner, -, hinner, rfl⟩ := h
      rcases List.mem_append.mp hentry with hown | hmem
      · obtain ⟨c, -, rfl⟩ := List.mem_map.mp hown
        exact List.prefix_refl place
      · obtain ⟨k, -, hk⟩ := ChronicleAll.within hinner hmem
        exact hk.up
  | text value, h, hentry => by
      rw [show journal = [] from h] at hentry
      exact absurd hentry List.not_mem_nil
  | placeholder target, h, hentry => by
      rw [show journal = [] from h] at hentry
      exact absurd hentry List.not_mem_nil

theorem ChronicleAll.within {place : List Nat} {index : Nat} {journal : List (NodeId × Change ν)}
    {entry : NodeId × Change ν} :
    ∀ {nodes : List Node}, ChronicleAll R place index nodes journal → entry ∈ journal →
      ∃ k, index ≤ k ∧ entry.1.Within (place ++ [k])
  | [], h, hentry => by
      rw [show journal = [] from h] at hentry
      exact absurd hentry List.not_mem_nil
  | node :: rest, h, hentry => by
      obtain ⟨own, more, hown, hmore, hjournal⟩ := h
      have hcases : entry ∈ own ∨ entry ∈ more := by
        rcases hjournal with rfl | rfl
        · exact List.mem_append.mp hentry
        · exact (List.mem_append.mp hentry).symm
      rcases hcases with hmem | hmem
      · exact ⟨index, le_refl index, hown.within hmem⟩
      · obtain ⟨k, hk, hwithin⟩ := hmore.within hmem
        exact ⟨k, by omega, hwithin⟩

end

/-! ## Changes by place -/

mutual

/-- Only the changes for nodes in its part of the tree matter to a node. -/
theorem ChangedBy.congr {journal other : List (NodeId × Change ν)} {place : List Nat}
    (hsame : ∀ id : NodeId, id.Within place →
      Dom.concerning id journal = Dom.concerning id other) :
    ∀ {node : Node}, ChangedBy R journal place node → ChangedBy R other place node
  | element tag properties children, h => by
      refine ⟨?_, ChangedByAll.congr (fun k _ id hid => hsame id hid.up) h.2⟩
      rw [← hsame (.cloned place) (List.prefix_refl place)]
      exact h.1
  | text value, _ => trivial
  | placeholder target, _ => trivial

theorem ChangedByAll.congr {journal other : List (NodeId × Change ν)} {place : List Nat}
    {index : Nat}
    (hsame : ∀ k, index ≤ k → ∀ id : NodeId, id.Within (place ++ [k]) →
      Dom.concerning id journal = Dom.concerning id other) :
    ∀ {nodes : List Node}, ChangedByAll R journal place index nodes →
      ChangedByAll R other place index nodes
  | [], _ => trivial
  | node :: rest, h =>
      ⟨ChangedBy.congr (hsame index (le_refl index)) h.1,
        ChangedByAll.congr (fun k hk => hsame k (by omega)) h.2⟩

end

theorem Chronicle.concerning_eq_nil {place : List Nat} {index k : Nat} (hk : index ≠ k)
    {node : Node} {journal : List (NodeId × Change ν)}
    (h : Chronicle R (place ++ [index]) node journal) {id : NodeId}
    (hid : id.Within (place ++ [k])) : Dom.concerning id journal = [] := by
  apply Dom.concerning_eq_nil
  rintro entry hentry rfl
  exact hk ((h.within hentry).index_unique hid)

theorem ChronicleAll.concerning_eq_nil {place : List Nat} {index k : Nat} (hk : k < index)
    {nodes : List Node} {journal : List (NodeId × Change ν)}
    (h : ChronicleAll R place index nodes journal) {id : NodeId}
    (hid : id.Within (place ++ [k])) : Dom.concerning id journal = [] := by
  apply Dom.concerning_eq_nil
  rintro entry hentry rfl
  obtain ⟨i, hi, hwithin⟩ := h.within hentry
  have hindex := hwithin.index_unique hid
  omega

mutual

theorem Chronicle.changedBy {place : List Nat} {journal : List (NodeId × Change ν)} :
    ∀ {node : Node}, Chronicle R place node journal → ChangedBy R journal place node
  | element tag properties children, h => by
      obtain ⟨own, inner, hown, hinner, rfl⟩ := h
      constructor
      · have hothers : Dom.concerning (.cloned place) inner = [] := by
          apply Dom.concerning_eq_nil
          intro entry hentry heq
          obtain ⟨k, -, hk⟩ := hinner.within hentry
          rw [heq] at hk
          exact NodeId.not_within_child place k hk
        rw [Dom.concerning_append, Dom.concerning_map_self, hothers, List.append_nil]
        exact hown
      · refine ChangedByAll.congr ?_ hinner.changedByAll
        intro k _ id hid
        have hothers : Dom.concerning id (own.map fun c => (NodeId.cloned place, c)) = [] := by
          apply Dom.concerning_eq_nil
          intro entry hentry heq
          obtain ⟨c, -, rfl⟩ := List.mem_map.mp hentry
          rw [← heq] at hid
          exact NodeId.not_within_child place k hid
        rw [Dom.concerning_append, hothers, List.nil_append]
  | text value, _ => trivial
  | placeholder target, _ => trivial

theorem ChronicleAll.changedByAll {place : List Nat} {index : Nat}
    {journal : List (NodeId × Change ν)} :
    ∀ {nodes : List Node}, ChronicleAll R place index nodes journal →
      ChangedByAll R journal place index nodes
  | [], _ => trivial
  | node :: rest, h => by
      obtain ⟨own, more, hown, hmore, hjournal⟩ := h
      -- Of the two parts of the journal each node sees only the one that it is in.
      have hsplit (id : NodeId) : Dom.concerning id more = [] ∨ Dom.concerning id own = [] →
          Dom.concerning id journal = Dom.concerning id own ++ Dom.concerning id more := by
        intro hnil
        rcases hjournal with rfl | rfl
        · rw [Dom.concerning_append]
        · rw [Dom.concerning_append]
          rcases hnil with hnil | hnil <;> simp [hnil]
      constructor
      · refine ChangedBy.congr ?_ hown.changedBy
        intro id hid
        have hnil := hmore.concerning_eq_nil (Nat.lt_succ_self index) hid
        rw [hsplit id (.inl hnil), hnil, List.append_nil]
      · refine ChangedByAll.congr ?_ hmore.changedByAll
        intro k hk id hid
        have hnil := hown.concerning_eq_nil (by omega) hid
        rw [hsplit id (.inr hnil), hnil, List.nil_append]

end

/-! ## Two journals one after the other -/

variable {R₁ R₂ : List Nat → List Property → List Node → List (Change ν) → Prop}

mutual

/-- If the changes that two relations ask for can be made one after the other, so can journals. -/
theorem ChangedBy.append
    (hR : ∀ place properties children first second, R₁ place properties children first →
      R₂ place properties children second → R place properties children (first ++ second))
    {first second : List (NodeId × Change ν)} {place : List Nat} :
    ∀ {node : Node}, ChangedBy R₁ first place node → ChangedBy R₂ second place node →
      ChangedBy R (first ++ second) place node
  | element tag properties children, h₁, h₂ => by
      refine ⟨?_, ChangedByAll.append hR h₁.2 h₂.2⟩
      rw [Dom.concerning_append]
      exact hR _ _ _ _ _ h₁.1 h₂.1
  | text value, _, _ => trivial
  | placeholder target, _, _ => trivial

theorem ChangedByAll.append
    (hR : ∀ place properties children first second, R₁ place properties children first →
      R₂ place properties children second → R place properties children (first ++ second))
    {first second : List (NodeId × Change ν)} {place : List Nat} {index : Nat} :
    ∀ {nodes : List Node}, ChangedByAll R₁ first place index nodes →
      ChangedByAll R₂ second place index nodes →
      ChangedByAll R (first ++ second) place index nodes
  | [], _, _ => trivial
  | _ :: _, h₁, h₂ => ⟨ChangedBy.append hR h₁.1 h₂.1, ChangedByAll.append hR h₁.2 h₂.2⟩

end

end DomTemplate.Node

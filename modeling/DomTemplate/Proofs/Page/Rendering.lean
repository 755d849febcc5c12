import Mathlib
import DomTemplate.Proofs.Page.Bare
import DomTemplate.Proofs.Page.Chronicle

/-!
# Renderings

What a root is meant to look like once its placeholders are filled is said here without a block:
constant attributes stay, each bound property is a line in the log of its element, and in the place
of a placeholder stand the nodes it is filled with.

A journal that tells every element its bound properties in order and then its insertions from right
to left turns the clone into the rendering.
-/

namespace DomTemplate

variable {ν : Type}

/-! ## The rendering -/

namespace Property

/-- Where the value of a property goes if it is bound. -/
def destination (p : Property) : Destination :=
  match p.kind, p.key with
  | .attr, "class" => .common "className"
  | .attr, key => .keyed .attr key
  | .style, key => .keyed .style key
  | .value, "textContent" => .common "textContent"
  | .value, "innerHTML" => .common "innerHTML"
  | .value, key => .keyed .property key
  | .domValue, "textContent" => .common "textContent"
  | .domValue, "innerHTML" => .common "innerHTML"
  | .domValue, key => .keyed .liveProperty key
  | .event, key => .keyed .event key
  | .directive, _ => .directive

/-- The line that a property leaves in the log of its element. -/
def entry? (fill : Placeholder → List ν) (p : Property) : Option (LogEntry ν) :=
  p.target?.map fun target => ⟨p.destination, fill target⟩

end Property

namespace Node

mutual

/-- What a node looks like when its placeholders are filled. -/
def render (fill : Placeholder → List ν) : Node → List (Dom Unit ν)
  | element tag properties children =>
    [.element () tag (.ofProperties properties) (properties.filterMap (Property.entry? fill))
      (renderAll fill children)]
  | text value => [.text () value]
  | placeholder target => (fill target).map (.mounted ())

def renderAll (fill : Placeholder → List ν) : List Node → List (Dom Unit ν)
  | [] => []
  | node :: rest => render fill node ++ renderAll fill rest

end

end Node

def Element.render (fill : Placeholder → List ν) (e : Element) : Dom Unit ν :=
  .element () e.tag (.ofProperties e.properties) (e.properties.filterMap (Property.entry? fill))
    (Node.renderAll fill e.children)

/-! ## The insertions into an element -/

/-- Insertions that have been made, with the neighbour and the number of the next one. -/
structure Insertions (ν : Type) where
  changes : List (Change ν)
  next : Option NodeId
  count : Nat

def Insertions.add (done : Insertions ν) (nodes : List ν) : Insertions ν where
  changes := done.changes ++ [.insert done.next done.count nodes]
  next := if nodes.isEmpty then done.next else some (.mounted done.count)
  count := done.count + nodes.length

namespace Node

/-- The insertions among the children of the element at `place` from number `index` on.  They are
made from right to left, and each goes before what stands to the right of its placeholder. -/
def insertions (fill : Placeholder → List ν) (place : List Nat) (index count : Nat) :
    List Node → Insertions ν
  | [] => ⟨[], none, count⟩
  | node :: rest =>
    let done := insertions fill place (index + 1) count rest
    match node with
    | placeholder target => done.add (fill target)
    | _ => { done with next := some (.cloned (place ++ [index])) }

theorem insertions_of_no_placeholder (fill : Placeholder → List ν) (place : List Nat)
    (index count : Nat) {nodes : List Node} (h : nodes.any isPlaceholder = false) :
    (insertions fill place index count nodes).changes = [] := by
  induction nodes generalizing index with
  | nil => rfl
  | cons node rest ih =>
      simp only [List.any_cons, Bool.or_eq_false_iff] at h
      cases node with
      | placeholder target => simp [isPlaceholder] at h
      | element tag properties children => exact ih (index + 1) h.2
      | text value => exact ih (index + 1) h.2

end Node

/-- Whether a change leaves a node alone that it finds in front of the children it works on. -/
def Change.Passes (id : NodeId) : Change ν → Prop
  | .record _ => True
  | .insert next _ _ => next ≠ some id

namespace Node

/-- Insertions never go before a child further to the left. -/
theorem insertions_passes (fill : Placeholder → List ν) (place : List Nat) (index count : Nat)
    {i : Nat} (hi : i < index) (nodes : List Node) :
    (insertions fill place index count nodes).next ≠ some (.cloned (place ++ [i])) ∧
      ∀ c ∈ (insertions fill place index count nodes).changes,
        c.Passes (.cloned (place ++ [i])) := by
  induction nodes generalizing index with
  | nil => simp [insertions]
  | cons node rest ih =>
      obtain ⟨hnext, hchanges⟩ := ih (index + 1) (by omega)
      have hleft : some (NodeId.cloned (place ++ [index])) ≠ some (.cloned (place ++ [i])) := by
        simp only [ne_eq, Option.some.injEq, NodeId.cloned.injEq, List.append_cancel_left_eq,
          List.cons.injEq]
        omega
      cases node with
      | placeholder target =>
          simp only [insertions, Insertions.add]
          refine ⟨?_, ?_⟩
          · split
            · exact hnext
            · simp
          · intro c hc
            rcases List.mem_append.mp hc with hc | hc
            · exact hchanges c hc
            · rw [List.mem_singleton.mp hc]
              exact hnext
      | element tag properties children => exact ⟨hleft, hchanges⟩
      | text value => exact ⟨hleft, hchanges⟩

end Node

namespace Dom

theorem changeMany_of_passes {changes : List (Change ν)} {node : Dom NodeId ν}
    (h : ∀ c ∈ changes, c.Passes node.id) (contents : List (LogEntry ν) × List (Dom NodeId ν)) :
    changeMany changes (contents.1, node :: contents.2) =
      ((changeMany changes contents).1, node :: (changeMany changes contents).2) := by
  induction changes generalizing contents with
  | nil => rfl
  | cons c rest ih =>
      have hstep : change c (contents.1, node :: contents.2) =
          ((change c contents).1, node :: (change c contents).2) := by
        cases c with
        | record entry => rfl
        | insert next first nodes =>
            have hnext : next ≠ some node.id := h _ List.mem_cons_self
            simp only [change, insertBefore, if_neg hnext]
      rw [changeMany_cons, hstep, changeMany_cons]
      exact ih (fun c hc => h c (List.mem_cons_of_mem _ hc)) _

theorem changeMany_record (entries log : List (LogEntry ν)) (children : List (Dom NodeId ν)) :
    changeMany (entries.map .record) (log, children) = (log ++ entries, children) := by
  induction entries generalizing log with
  | nil => simp [changeMany]
  | cons entry rest ih =>
      rw [List.map_cons, changeMany_cons, change, ih]
      simp

theorem insertBefore_head {next : Option NodeId} {nodes : List (Dom NodeId ν)}
    (h : nodes.head?.map Dom.id = next) (new : List (Dom NodeId ν)) :
    insertBefore next new nodes = new ++ nodes := by
  subst h
  cases nodes with
  | nil => simp [insertBefore]
  | cons node rest => simp [insertBefore]

theorem forgetAll_append {ι : Type} (nodes more : List (Dom ι ν)) :
    forgetAll (nodes ++ more) = forgetAll nodes ++ forgetAll more := by
  induction nodes with
  | nil => rfl
  | cons node rest ih => simp [forgetAll, ih]

theorem forgetAll_label (first : Nat) (nodes : List ν) :
    forgetAll (label first nodes) = nodes.map (.mounted ()) := by
  induction nodes generalizing first with
  | nil => rfl
  | cons node rest ih => simp [label, forgetAll, forget, ih]

end Dom

/-! ## Journals that turn the clone into the rendering -/

/-- The changes of an element in a rendering: first its log, then its insertions. -/
def Rendered (fill : Placeholder → List ν) (place : List Nat) (properties : List Property)
    (children : List Node) (changes : List (Change ν)) : Prop :=
  ∃ count, changes = (properties.filterMap (Property.entry? fill)).map .record ++
    (Node.insertions fill place 0 count children).changes

namespace Node

theorem bare_of_not_placeholder (place : List Nat) {node : Node}
    (h : node.isPlaceholder = false) :
    ∃ copy : Dom NodeId ν, bare place node = [copy] ∧ copy.id = .cloned place := by
  cases node with
  | element tag properties children => exact ⟨_, rfl, rfl⟩
  | text value => exact ⟨_, rfl, rfl⟩
  | placeholder target => simp [isPlaceholder] at h

theorem insertions_cons_of_not_placeholder (fill : Placeholder → List ν) (place : List Nat)
    (index count : Nat) {node : Node} (h : node.isPlaceholder = false) (rest : List Node) :
    insertions fill place index count (node :: rest) =
      { insertions fill place (index + 1) count rest with
        next := some (.cloned (place ++ [index])) } := by
  cases node with
  | element tag properties children => rfl
  | text value => rfl
  | placeholder target => simp [isPlaceholder] at h

mutual

/-- A constant node of the clone after such a journal is its rendering. -/
theorem render_of_changedBy (fill : Placeholder → List ν) {journal : List (NodeId × Change ν)}
    {place : List Nat} {copy : Dom NodeId ν} :
    ∀ {node : Node}, ChangedBy (Rendered fill) journal place node → bare place node = [copy] →
      render fill node = [(copy.amendMany journal).forget]
  | element tag properties children, h, hcopy => by
      obtain ⟨⟨count, hchanges⟩, hchildren⟩ := h
      obtain ⟨done, hfold, hdone, -⟩ := insertions_of_changedByAll fill hchildren
        count (properties.filterMap (Property.entry? fill))
      rw [bare, List.cons.injEq] at hcopy
      rw [← hcopy.1, Dom.amendMany_element, hchanges, Dom.changeMany_append,
        Dom.changeMany_record, List.nil_append, hfold, render, ← hdone, Dom.forget]
  | text value, _, hcopy => by
      rw [bare, List.cons.injEq] at hcopy
      rw [← hcopy.1, Dom.amendMany_text, render, Dom.forget]
  | placeholder target, _, hcopy => by
      simp [bare] at hcopy

/-- The insertions among siblings leave their rendering, and the next insertion goes before its
first node. -/
theorem insertions_of_changedByAll (fill : Placeholder → List ν)
    {journal : List (NodeId × Change ν)} {place : List Nat} {index : Nat} :
    ∀ {nodes : List Node}, ChangedByAll (Rendered fill) journal place index nodes →
      ∀ (count : Nat) (log : List (LogEntry ν)), ∃ done,
        Dom.changeMany (insertions fill place index count nodes).changes
            (log, (bareAll place index nodes).map (Dom.amendMany journal)) = (log, done) ∧
          Dom.forgetAll done = renderAll fill nodes ∧
          done.head?.map Dom.id = (insertions fill place index count nodes).next
  | [], _, count, log => ⟨[], rfl, rfl, rfl⟩
  | node :: rest, h, count, log => by
      obtain ⟨hnode, hrest⟩ := h
      obtain ⟨done, hfold, hdone, hnext⟩ := insertions_of_changedByAll fill hrest count log
      cases hsolid : node.isPlaceholder with
      | false =>
          obtain ⟨copy, hcopy, hid⟩ := bare_of_not_placeholder (ν := ν) (place ++ [index]) hsolid
          rw [insertions_cons_of_not_placeholder fill place index count hsolid]
          -- No insertion further to the right goes before this child, so it stays in front.
          have hpasses :=
            (insertions_passes fill place (index + 1) count (Nat.lt_succ_self index) rest).2
          rw [← hid, ← Dom.id_amendMany journal] at hpasses
          refine ⟨copy.amendMany journal :: done, ?_, ?_, ?_⟩
          · rw [bareAll, hcopy, List.singleton_append, List.map_cons]
            rw [Dom.changeMany_of_passes hpasses (log, _), hfold]
          · rw [renderAll, render_of_changedBy fill hnode hcopy, Dom.forgetAll, hdone,
              List.singleton_append]
          · simp [Dom.id_amendMany, hid]
      | true =>
          obtain ⟨target, rfl⟩ := node.isPlaceholder_iff.mp hsolid
          refine ⟨Dom.label (insertions fill place (index + 1) count rest).count (fill target) ++
            done, ?_, ?_, ?_⟩
          · rw [bareAll, bare, List.nil_append, insertions, Insertions.add, Dom.changeMany_append,
              hfold, Dom.changeMany_cons, Dom.change, Dom.insertBefore_head hnext]
            rfl
          · rw [Dom.forgetAll_append, Dom.forgetAll_label, hdone, renderAll, render]
          · simp only [insertions, Insertions.add]
            cases fill target with
            | nil => simpa [Dom.label] using hnext
            | cons first more => rfl

end

end Node

end DomTemplate

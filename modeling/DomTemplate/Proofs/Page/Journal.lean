import Mathlib
import DomTemplate.Proofs.Page.Instance

/-!
# Journals of changes

Binding and mounting change a page one element at a time.  A list of such changes, each with the
element it is for, is a journal.  What an element looks like after a journal depends only on the
changes that are for it and on what its children look like, and no node ever leaves the page.
-/

namespace DomTemplate.Dom

variable {ν : Type}

/-- A page after all the changes of a journal. -/
def amendMany (journal : List (NodeId × Change ν)) (page : Dom NodeId ν) : Dom NodeId ν :=
  journal.foldl (fun page entry => page.amend entry.1 entry.2) page

/-- The changes of a journal that are for one element. -/
def concerning (id : NodeId) (journal : List (NodeId × Change ν)) : List (Change ν) :=
  journal.filterMap fun entry => if entry.1 = id then some entry.2 else none

/-- The log and the children of an element after changes to it. -/
def changeMany (changes : List (Change ν)) (contents : List (LogEntry ν) × List (Dom NodeId ν)) :
    List (LogEntry ν) × List (Dom NodeId ν) :=
  changes.foldl (fun contents c => change c contents) contents

theorem changeMany_cons (c : Change ν) (changes : List (Change ν))
    (contents : List (LogEntry ν) × List (Dom NodeId ν)) :
    changeMany (c :: changes) contents = changeMany changes (change c contents) := rfl

theorem changeMany_append (changes more : List (Change ν))
    (contents : List (LogEntry ν) × List (Dom NodeId ν)) :
    changeMany (changes ++ more) contents = changeMany more (changeMany changes contents) := by
  simp [changeMany]

theorem concerning_append (id : NodeId) (journal more : List (NodeId × Change ν)) :
    concerning id (journal ++ more) = concerning id journal ++ concerning id more := by
  simp [concerning]

theorem concerning_eq_nil {id : NodeId} {journal : List (NodeId × Change ν)}
    (h : ∀ entry ∈ journal, entry.1 ≠ id) : concerning id journal = [] := by
  unfold concerning
  rw [List.filterMap_eq_nil_iff]
  intro entry hentry
  simp [h entry hentry]

theorem concerning_map_self (id : NodeId) (changes : List (Change ν)) :
    concerning id (changes.map fun c => (id, c)) = changes := by
  simp [concerning, List.filterMap_map]

theorem amendMany_append (journal more : List (NodeId × Change ν)) (page : Dom NodeId ν) :
    amendMany (journal ++ more) page = amendMany more (amendMany journal page) := by
  simp [amendMany]

/-! ## One change -/

theorem amendAll_eq_map (target : NodeId) (c : Change ν) (nodes : List (Dom NodeId ν)) :
    amendAll target c nodes = nodes.map (amend target c) := by
  induction nodes with
  | nil => rfl
  | cons node rest ih => simp [amendAll, ih]

theorem id_amend (target : NodeId) (c : Change ν) (node : Dom NodeId ν) :
    (node.amend target c).id = node.id := by
  cases node <;> rfl

/-- Putting nodes in front of a child does not depend on what is below the children. -/
theorem map_insertBefore {f : Dom NodeId ν → Dom NodeId ν} (hid : ∀ node, (f node).id = node.id)
    (next : Option NodeId) {new : List (Dom NodeId ν)} (hnew : new.map f = new)
    (nodes : List (Dom NodeId ν)) :
    (insertBefore next new nodes).map f = insertBefore next new (nodes.map f) := by
  induction nodes with
  | nil => simpa [insertBefore] using hnew
  | cons node rest ih =>
      simp only [insertBefore, List.map_cons, hid]
      split
      · simp [hnew]
      · simp [ih]

theorem map_label {f : Dom NodeId ν → Dom NodeId ν}
    (hf : ∀ id node, f (mounted id node) = mounted id node) (first : Nat) (nodes : List ν) :
    (label first nodes).map f = label first nodes := by
  induction nodes generalizing first with
  | nil => rfl
  | cons node rest ih => simp [label, hf, ih]

/-- A change to an element commutes with changes below it. -/
theorem change_map {f : Dom NodeId ν → Dom NodeId ν} (hid : ∀ node, (f node).id = node.id)
    (hf : ∀ id node, f (mounted id node) = mounted id node) (c : Change ν)
    (log : List (LogEntry ν)) (children : List (Dom NodeId ν)) :
    change c (log, children.map f) =
      ((change c (log, children)).1, (change c (log, children)).2.map f) := by
  cases c with
  | record entry => rfl
  | insert next first nodes =>
      simp only [change, map_insertBefore hid next (map_label hf first nodes)]

/-! ## The whole journal -/

theorem id_amendMany (journal : List (NodeId × Change ν)) (node : Dom NodeId ν) :
    (amendMany journal node).id = node.id := by
  induction journal generalizing node with
  | nil => rfl
  | cons entry rest ih => exact (ih _).trans (id_amend entry.1 entry.2 node)

theorem amendMany_text (journal : List (NodeId × Change ν)) (id : NodeId) (value : String) :
    amendMany journal (text id value) = text id value := by
  induction journal with
  | nil => rfl
  | cons entry rest ih => exact ih

theorem amendMany_mounted (journal : List (NodeId × Change ν)) (id : NodeId) (node : ν) :
    amendMany journal (mounted id node) = mounted id node := by
  induction journal with
  | nil => rfl
  | cons entry rest ih => exact ih

/-- An element after a journal: its own changes are applied in order to its log and to its children
as they are after the journal. -/
theorem amendMany_element (journal : List (NodeId × Change ν)) (id : NodeId) (tag : String)
    (attributes : Attributes) (log : List (LogEntry ν)) (children : List (Dom NodeId ν)) :
    amendMany journal (element id tag attributes log children) =
      let contents := changeMany (concerning id journal) (log, children.map (amendMany journal))
      element id tag attributes contents.1 contents.2 := by
  induction journal generalizing log children with
  | nil =>
      have hsame : children.map (amendMany []) = children := List.map_id'' (fun _ => rfl) children
      rw [hsame]
      rfl
  | cons entry rest ih =>
      obtain ⟨target, c⟩ := entry
      have hstep (node : Dom NodeId ν) :
          amendMany ((target, c) :: rest) node = amendMany rest (node.amend target c) := rfl
      have hchildren : children.map (amendMany ((target, c) :: rest)) =
          (children.map (amend target c)).map (amendMany rest) := by
        simp [Function.comp_def, hstep]
      rw [hstep, amend, hchildren, amendAll_eq_map]
      by_cases htarget : id = target
      · -- The change is made before the rest of the journal reaches the children.
        simp only [if_pos htarget, ih]
        have hconcerning : concerning id ((target, c) :: rest) = c :: concerning id rest := by
          simp [concerning, htarget]
        rw [hconcerning, changeMany_cons,
          change_map (id_amendMany rest) (amendMany_mounted rest) c log]
      · have hconcerning : concerning id ((target, c) :: rest) = concerning id rest := by
          simp [concerning, Ne.symm htarget]
        simp only [if_neg htarget, ih, hconcerning]

/-! ## Nothing leaves the page -/

theorem accepts_iff (page : Dom NodeId ν) (parent : NodeId) (next : Option NodeId) :
    page.accepts parent next = true ↔
      ∃ children, (parent, children) ∈ page.elements ∧ ∀ id ∈ next, id ∈ children := by
  simp [accepts, Option.all_eq_true]

theorem elementsAll_append (nodes more : List (Dom NodeId ν)) :
    elementsAll (nodes ++ more) = elementsAll nodes ++ elementsAll more := by
  induction nodes with
  | nil => rfl
  | cons node rest ih => simp [elementsAll, ih]

/-- The nodes that a change adds to an element. -/
def added : Change ν → List (Dom NodeId ν)
  | .record _ => []
  | .insert _ first nodes => label first nodes

theorem mem_insertBefore {next : Option NodeId} {new nodes : List (Dom NodeId ν)}
    {node : Dom NodeId ν} : node ∈ insertBefore next new nodes ↔ node ∈ new ∨ node ∈ nodes := by
  induction nodes with
  | nil => simp [insertBefore]
  | cons first rest ih =>
      rw [insertBefore]
      split
      · simp
      · simp only [List.mem_cons, ih]
        tauto

theorem mem_change {c : Change ν} {log : List (LogEntry ν)} {children : List (Dom NodeId ν)}
    {node : Dom NodeId ν} :
    node ∈ (change c (log, children)).2 ↔ node ∈ added c ∨ node ∈ children := by
  cases c with
  | record entry => simp [change, added]
  | insert next first nodes => exact mem_insertBefore

theorem mem_elementsAll {nodes : List (Dom NodeId ν)} {entry : NodeId × List NodeId} :
    entry ∈ elementsAll nodes ↔ ∃ node ∈ nodes, entry ∈ node.elements := by
  induction nodes with
  | nil => simp [elementsAll]
  | cons node rest ih => simp [elementsAll, ih]

/-- The children of an element after a change, which may or may not be for it. -/
theorem amend_element (target : NodeId) (c : Change ν) (id : NodeId) (tag : String)
    (attributes : Attributes) (log : List (LogEntry ν)) (children : List (Dom NodeId ν)) :
    ∃ log' children', (element id tag attributes log children).amend target c =
        element id tag attributes log' children' ∧
      (∀ node ∈ amendAll target c children, node ∈ children') ∧
      (id = target → ∀ node ∈ added c, node ∈ children') := by
  by_cases htarget : id = target
  · refine ⟨_, _, by rw [amend, if_pos htarget], ?_, ?_⟩
    · exact fun node hnode => mem_change.mpr (.inr hnode)
    · exact fun _ node hnode => mem_change.mpr (.inl hnode)
  · refine ⟨_, _, by rw [amend, if_neg htarget], ?_, ?_⟩
    · exact fun node hnode => hnode
    · exact fun h => absurd h htarget

mutual

/-- After a change every element still has its children, and the one it was for has the new ones. -/
theorem mem_elements_amend (target : NodeId) (c : Change ν) {id : NodeId} {ids : List NodeId} :
    ∀ {page : Dom NodeId ν}, (id, ids) ∈ page.elements →
      ∃ more, (id, more) ∈ (page.amend target c).elements ∧ ids ⊆ more ∧
        (id = target → (added c).map Dom.id ⊆ more)
  | element own tag attributes log children, h => by
      obtain ⟨log', children', hamend, hold, hnew⟩ :=
        amend_element target c own tag attributes log children
      rw [elements, List.mem_cons] at h
      rw [hamend, elements]
      rcases h with h | h
      · obtain ⟨rfl, rfl⟩ := Prod.mk.inj h
        refine ⟨children'.map Dom.id, List.mem_cons_self, ?_, ?_⟩
        · intro x hx
          obtain ⟨child, hchild, rfl⟩ := List.mem_map.mp hx
          have hmem : child.amend target c ∈ children' := by
            apply hold
            rw [amendAll_eq_map]
            exact List.mem_map_of_mem hchild
          rw [← id_amend target c child]
          exact List.mem_map_of_mem hmem
        · intro htarget x hx
          obtain ⟨node, hnode, rfl⟩ := List.mem_map.mp hx
          exact List.mem_map_of_mem (hnew htarget node hnode)
      · obtain ⟨more, hmore, hids⟩ := mem_elementsAll_amendAll target c h
        obtain ⟨node, hnode, hmem⟩ := mem_elementsAll.mp hmore
        have hkept := mem_elementsAll.mpr ⟨node, hold node hnode, hmem⟩
        exact ⟨more, List.mem_cons_of_mem _ hkept, hids⟩

theorem mem_elementsAll_amendAll (target : NodeId) (c : Change ν) {id : NodeId}
    {ids : List NodeId} :
    ∀ {nodes : List (Dom NodeId ν)}, (id, ids) ∈ elementsAll nodes →
      ∃ more, (id, more) ∈ elementsAll (amendAll target c nodes) ∧ ids ⊆ more ∧
        (id = target → (added c).map Dom.id ⊆ more)
  | node :: rest, h => by
      rw [elementsAll, List.mem_append] at h
      simp only [amendAll, elementsAll, List.mem_append]
      rcases h with h | h
      · obtain ⟨more, hmore, hids⟩ := mem_elements_amend target c h
        exact ⟨more, .inl hmore, hids⟩
      · obtain ⟨more, hmore, hids⟩ := mem_elementsAll_amendAll target c h
        exact ⟨more, .inr hmore, hids⟩

end

/-- Whether the elements among some nodes are on a page, with all the children they have there. -/
def Covers (page : Dom NodeId ν) (nodes : List (Dom NodeId ν)) : Prop :=
  ∀ id ids, (id, ids) ∈ elementsAll nodes → ∃ more, (id, more) ∈ page.elements ∧ ids ⊆ more

theorem covers_self (page : Dom NodeId ν) : page.Covers [page] := by
  intro id ids h
  rw [elementsAll, elementsAll, List.append_nil] at h
  exact ⟨ids, h, List.Subset.refl ids⟩

theorem Covers.append {page : Dom NodeId ν} {nodes more : List (Dom NodeId ν)}
    (h : page.Covers (nodes ++ more)) : page.Covers nodes ∧ page.Covers more := by
  constructor
  · exact fun id ids hmem => h id ids (by simp [elementsAll_append, hmem])
  · exact fun id ids hmem => h id ids (by simp [elementsAll_append, hmem])

theorem Covers.children {page : Dom NodeId ν} {id : NodeId} {tag : String}
    {attributes : Attributes} {log : List (LogEntry ν)} {children : List (Dom NodeId ν)}
    (h : page.Covers [element id tag attributes log children]) : page.Covers children := by
  intro other ids hmem
  exact h other ids (by simp [elementsAll, elements, hmem])

theorem Covers.accepts {page : Dom NodeId ν} {id : NodeId} {tag : String}
    {attributes : Attributes} {log : List (LogEntry ν)} {children : List (Dom NodeId ν)}
    (h : page.Covers [element id tag attributes log children]) {next : Option NodeId}
    (hnext : ∀ other ∈ next, other ∈ children.map Dom.id) : page.accepts id next = true := by
  obtain ⟨more, hmore, hsubset⟩ := h id (children.map Dom.id) (by simp [elementsAll, elements])
  exact (accepts_iff _ _ _).mpr ⟨more, hmore, fun other hother => hsubset (hnext other hother)⟩

theorem Covers.amend {page : Dom NodeId ν} {nodes : List (Dom NodeId ν)} (h : page.Covers nodes)
    (target : NodeId) (c : Change ν) : (page.amend target c).Covers nodes := by
  intro id ids hmem
  obtain ⟨old, hold, hsubset⟩ := h id ids hmem
  obtain ⟨more, hmore, hkept, -⟩ := mem_elements_amend target c hold
  exact ⟨more, hmore, List.Subset.trans hsubset hkept⟩

theorem Covers.amendMany {page : Dom NodeId ν} {nodes : List (Dom NodeId ν)}
    (h : page.Covers nodes) (journal : List (NodeId × Change ν)) :
    (amendMany journal page).Covers nodes := by
  induction journal generalizing page with
  | nil => exact h
  | cons entry rest ih => exact ih (h.amend entry.1 entry.2)

/-- The first of the inserted nodes can be the neighbour of the next insertion. -/
theorem accepts_insert {page : Dom NodeId ν} {parent : NodeId} {next : Option NodeId}
    (h : page.accepts parent next = true) (first : Nat) (nodes : List ν) :
    (page.amend parent (.insert next first nodes)).accepts parent
      (if nodes.isEmpty then next else some (.mounted first)) = true := by
  obtain ⟨children, hchildren, hnext⟩ := (accepts_iff _ _ _).mp h
  obtain ⟨more, hmore, hsubset, hadded⟩ :=
    mem_elements_amend parent (.insert next first nodes) hchildren
  cases nodes with
  | nil => exact (accepts_iff _ _ _).mpr ⟨more, hmore, fun id hid => hsubset (hnext id hid)⟩
  | cons node rest =>
      have hfirst : NodeId.mounted first ∈ more := hadded rfl List.mem_cons_self
      exact (accepts_iff _ _ _).mpr ⟨more, hmore, by simpa using hfirst⟩

end DomTemplate.Dom

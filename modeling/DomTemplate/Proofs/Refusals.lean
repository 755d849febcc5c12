import Mathlib
import DomTemplate.Proofs.Accepted
import DomTemplate.Proofs.Sites

/-!
# When a root is refused, and why

A root element is refused for the first of four faults that its tree shows: too many placeholders, a
void element with children, too many slots and too many insertions.  A template is refused for the
first of its roots that is.
-/

namespace DomTemplate

/-! ## Void elements with children -/

namespace Shell

/-- Writing markup stops at the first fault, if there is one, with the path to it. -/
def StopsAt (fault : Option Site) (result : Except (List String) (List String)) : Prop :=
  match fault with
  | some site => result = .error site.path
  | none => ∃ parts, result = .ok parts

mutual

theorem stopsAt_ofNode (path : List String) (left : Option Node) :
    ∀ node : Node,
      StopsAt ((node.sites path left).find? (·.node.isOverfull)) (ofNode path node)
  | .element name properties children => by
      by_cases hvoid : isVoid name = true
      · cases children with
        | nil =>
            simp [Node.sites, Node.sitesAll, Node.isOverfull, ofNode, hvoid, StopsAt]
        | cons child rest =>
            simp [Node.sites, Node.isOverfull, ofNode, hvoid, StopsAt]
      · -- The element itself is not at fault, so the first fault is one among its children.
        have hinner := stopsAt_ofNodes (path ++ [name]) none .start children
        have hself : (Node.element name properties children).isOverfull = false := by
          simp [Node.isOverfull, hvoid]
        rw [Node.sites, List.find?_cons_of_neg (by simp [hself]), ofNode, if_neg hvoid]
        cases hfault : (Node.sitesAll (path ++ [name]) none children).find? (·.node.isOverfull) with
        | none =>
            rw [hfault] at hinner
            obtain ⟨parts, hparts⟩ := hinner
            exact ⟨_, by rw [hparts]; rfl⟩
        | some site =>
            rw [hfault] at hinner
            have herror : ofNodes (path ++ [name]) .start children = .error site.path := hinner
            rw [herror]
            rfl
  | .text value => ⟨_, rfl⟩
  | .placeholder target => ⟨_, rfl⟩

theorem stopsAt_ofNodes (path : List String) (left : Option Node) (gap : Gap) :
    ∀ nodes : List Node,
      StopsAt ((Node.sitesAll path left nodes).find? (·.node.isOverfull)) (ofNodes path gap nodes)
  | [] => ⟨_, rfl⟩
  | node :: rest => by
      have hown := stopsAt_ofNode path left node
      have hrest := stopsAt_ofNodes path (some node) (gap.past node) rest
      rw [Node.sitesAll, List.find?_append, ofNodes]
      cases hfault : (node.sites path left).find? (·.node.isOverfull) with
      | some site =>
          rw [hfault] at hown
          have herror : ofNode path node = .error site.path := hown
          rw [herror]
          rfl
      | none =>
          rw [hfault] at hown
          obtain ⟨parts, hparts⟩ := hown
          rw [hparts, Option.none_or]
          cases hlater : (Node.sitesAll path (some node) rest).find? (·.node.isOverfull) with
          | some site =>
              rw [hlater] at hrest
              have herror : ofNodes path (gap.past node) rest = .error site.path := hrest
              rw [herror]
              rfl
          | none =>
              rw [hlater] at hrest
              obtain ⟨more, hmore⟩ := hrest
              exact ⟨_, by rw [hmore]; rfl⟩

end

end Shell

namespace Element

/-- The first element of a root, in document order, that is void and has children. -/
def firstOverfull? (e : Element) : Option Site :=
  e.sites.find? (·.node.isOverfull)

/-- The tag of the element at fault is the end of the path to it. -/
theorem tag?_of_firstOverfull? {e : Element} {site : Site} (h : e.firstOverfull? = some site) :
    site.node.tag? = some (site.path.getLast?.getD "") := by
  have hover : site.node.isOverfull = true :=
    List.find?_some (p := fun site : Site => site.node.isOverfull) h
  cases hnode : site.node with
  | element tag properties children =>
      have htag : site.node.tag? = some tag := by rw [hnode]; rfl
      rw [Node.getLast?_path_of_mem_sites htag (List.mem_of_find?_eq_some h)]
      rfl
  | text value => simp [hnode, Node.isOverfull] at hover
  | placeholder target => simp [hnode, Node.isOverfull] at hover

theorem shell_of_firstOverfull? {e : Element} {site : Site} (h : e.firstOverfull? = some site) :
    e.shell = .error ⟨0, site.path, .voidElementChildren (site.path.getLast?.getD "")⟩ := by
  have hstops := Shell.stopsAt_ofNode [] none e.toNode
  rw [firstOverfull?, sites] at h
  rw [h] at hstops
  have herror : Shell.ofNode [] e.toNode = .error site.path := hstops
  rw [Element.shell, Shell.ofElement, herror]
  rfl

theorem exists_parts_of_no_overfull {e : Element} (h : e.firstOverfull? = none) :
    ∃ parts, Shell.ofNode [] e.toNode = .ok parts := by
  have hstops := Shell.stopsAt_ofNode [] none e.toNode
  rw [firstOverfull?, sites] at h
  rw [h] at hstops
  exact hstops

theorem exists_shell_of_no_overfull {e : Element} (h : e.firstOverfull? = none) :
    ∃ shell, e.shell = .ok shell := by
  obtain ⟨parts, hparts⟩ := exists_parts_of_no_overfull h
  refine ⟨Shell.ofParts e.tag parts, ?_⟩
  rw [Element.shell, Shell.ofElement, hparts]
  rfl

/-! ## The order of the faults -/

theorem require_of_not_fits (e : Element) (resource : Resource) (count : Nat)
    (h : resource.fits count = false) :
    e.require resource count = .error ⟨0, [e.tag], .capacityExceeded resource count⟩ := by
  rw [require, h]
  rfl

/-- The slots that are given out are those that are needed, if words can count them. -/
theorem slotsGiven_eq_neededSlots {e : Element} (hfits : e.toNode.FitsWords) :
    e.slotsGiven = e.neededSlots :=
  (slotsGiven_eq hfits).trans e.slotCount_eq_neededSlots

/-- Every placeholder among children is inserted, if words can count them. -/
theorem mountCount_eq_insertionCount {e : Element} (hfits : e.toNode.FitsWords) :
    e.mountCount = e.insertionCount := by
  rw [mountCount, mountStream_scratch hfits, e.countMounts_mountStream]

/-- What becomes of a root element, by the first fault that its tree shows. -/
theorem compile_cases {e : Element} (hfits : e.toNode.FitsWords) (dialect : Dialect) :
    (64 < e.placeholderCount ∧ e.toNode.compile dialect =
      .error ⟨0, [e.tag], .capacityExceeded .expressions e.placeholderCount⟩) ∨
    e.placeholderCount ≤ 64 ∧
      ((∃ site, e.firstOverfull? = some site ∧ e.toNode.compile dialect =
        .error ⟨0, site.path, .voidElementChildren (site.path.getLast?.getD "")⟩) ∨
      e.firstOverfull? = none ∧
        ((64 ≤ e.neededSlots ∧ e.toNode.compile dialect =
          .error ⟨0, [e.tag], .capacityExceeded .stateSlots e.neededSlots⟩) ∨
        e.neededSlots < 64 ∧
          ((64 ≤ e.insertionCount ∧ e.toNode.compile dialect =
            .error ⟨0, [e.tag], .capacityExceeded .childSlots e.insertionCount⟩) ∨
          e.insertionCount < 64 ∧ ∃ block, e.toNode.compile dialect = .ok (.block block)))) := by
  rw [compile_toNode, checked, e.size_placeholders, slotsGiven_eq_neededSlots hfits]
  rcases Nat.lt_or_ge 64 e.placeholderCount with hexpressions | hexpressions
  · rw [e.require_of_not_fits .expressions _ (decide_eq_false (Nat.not_le.mpr hexpressions))]
    exact .inl ⟨hexpressions, rfl⟩
  rw [(e.require_eq_ok_iff .expressions _).mpr (decide_eq_true hexpressions),
    mountCount_eq_insertionCount hfits]
  refine .inr ⟨hexpressions, ?_⟩
  cases hfault : e.firstOverfull? with
  | some site =>
      rw [shell_of_firstOverfull? hfault]
      exact .inl ⟨site, rfl, rfl⟩
  | none =>
      obtain ⟨shell, hshell⟩ := exists_shell_of_no_overfull hfault
      rw [hshell]
      refine .inr ⟨rfl, ?_⟩
      rcases Nat.lt_or_ge e.neededSlots 64 with hslots | hslots
      · rw [(e.require_eq_ok_iff .stateSlots _).mpr (decide_eq_true hslots)]
        refine .inr ⟨hslots, ?_⟩
        rcases Nat.lt_or_ge e.insertionCount 64 with hmounts | hmounts
        · rw [(e.require_eq_ok_iff .childSlots _).mpr (decide_eq_true hmounts)]
          exact .inr ⟨hmounts, _, rfl⟩
        · rw [e.require_of_not_fits .childSlots _ (decide_eq_false (Nat.not_lt.mpr hmounts))]
          exact .inl ⟨hmounts, rfl⟩
      · rw [e.require_of_not_fits .stateSlots _ (decide_eq_false (Nat.not_lt.mpr hslots))]
        exact .inl ⟨hslots, rfl⟩

end Element

/-! ## Templates -/

/-- What becomes of one root under the options of the author: in normal form, unless that is
switched off. -/
def Options.compileRoot (options : Options) (dialect : Dialect) (node : Node) :
    Except Refusal (Root Block) :=
  (if options.normalize then node.normalizeRoot else node).compile dialect

section Roots

variable (options : Options) (dialect : Dialect) (index : Nat)

theorem compileRoots_cons_of_error {node : Node} {own : Refusal} (rest : List Node)
    (h : options.compileRoot dialect node = .error own) :
    compileRoots options dialect index (node :: rest) = .error { own with root := index } := by
  rw [Options.compileRoot] at h
  rw [compileRoots, h]

theorem compileRoots_cons_of_ok {node : Node} {root : Root Block} (rest : List Node)
    (h : options.compileRoot dialect node = .ok root) :
    compileRoots options dialect index (node :: rest) =
      (compileRoots options dialect (index + 1) rest).map (root :: ·) := by
  rw [Options.compileRoot] at h
  rw [compileRoots, h]
  cases compileRoots options dialect (index + 1) rest <;> rfl

/-- Roots compile one by one. -/
theorem compileRoots_eq_ok_iff (nodes : List Node) (roots : List (Root Block)) :
    compileRoots options dialect index nodes = .ok roots ↔
      nodes.map (options.compileRoot dialect) = roots.map .ok := by
  induction nodes generalizing index roots with
  | nil => cases roots <;> simp [compileRoots]
  | cons node rest ih =>
      rw [List.map_cons]
      cases hnode : options.compileRoot dialect node with
      | error own =>
          rw [compileRoots_cons_of_error options dialect index rest hnode]
          cases roots <;> simp
      | ok root =>
          rw [compileRoots_cons_of_ok options dialect index rest hnode]
          cases roots with
          | nil => cases compileRoots options dialect (index + 1) rest <;> simp [Except.map]
          | cons first more =>
              rw [List.map_cons, List.cons.injEq, ← ih (index + 1) more]
              cases compileRoots options dialect (index + 1) rest <;> simp [Except.map]

/-- The refusal of some roots is about the first of them that is refused. -/
theorem compileRoots_eq_error_iff (nodes : List Node) (refusal : Refusal) :
    compileRoots options dialect index nodes = .error refusal ↔
      ∃ before node after own, nodes = before ++ node :: after ∧
        (∀ earlier ∈ before, ∃ root, options.compileRoot dialect earlier = .ok root) ∧
        options.compileRoot dialect node = .error own ∧
        refusal = { own with root := index + before.length } := by
  induction nodes generalizing index with
  | nil => simp [compileRoots]
  | cons first rest ih =>
      cases hfirst : options.compileRoot dialect first with
      | error own =>
          rw [compileRoots_cons_of_error options dialect index rest hfirst, Except.error.injEq]
          constructor
          · rintro rfl
            exact ⟨[], first, rest, own, rfl, by simp, hfirst, rfl⟩
          · rintro ⟨before, node, after, other, hnodes, hbefore, hnode, rfl⟩
            cases before with
            | nil =>
                obtain ⟨rfl, -⟩ := List.cons.inj hnodes
                rw [hfirst, Except.error.injEq] at hnode
                rw [hnode]
                rfl
            | cons earlier before =>
                obtain ⟨rfl, -⟩ := List.cons.inj hnodes
                obtain ⟨root, hroot⟩ := hbefore first List.mem_cons_self
                rw [hfirst] at hroot
                cases hroot
      | ok root =>
          have hstep : compileRoots options dialect index (first :: rest) = .error refusal ↔
              compileRoots options dialect (index + 1) rest = .error refusal := by
            rw [compileRoots_cons_of_ok options dialect index rest hfirst]
            cases compileRoots options dialect (index + 1) rest <;> simp [Except.map]
          rw [hstep, ih]
          constructor
          · rintro ⟨before, node, after, own, rfl, hbefore, hnode, rfl⟩
            refine ⟨first :: before, node, after, own, rfl, ?_, hnode, ?_⟩
            · exact List.forall_mem_cons.mpr ⟨⟨root, hfirst⟩, hbefore⟩
            · rw [List.length_cons, Nat.add_right_comm, Nat.add_assoc]
          · rintro ⟨before, node, after, own, hnodes, hbefore, hnode, rfl⟩
            cases before with
            | nil =>
                obtain ⟨rfl, -⟩ := List.cons.inj hnodes
                rw [hfirst] at hnode
                cases hnode
            | cons earlier before =>
                obtain ⟨rfl, hrest⟩ := List.cons.inj hnodes
                refine ⟨before, node, after, own, hrest,
                  (List.forall_mem_cons.mp hbefore).2, hnode, ?_⟩
                rw [List.length_cons, Nat.add_right_comm, Nat.add_assoc]

/-- Roots compile if each of them does. -/
theorem exists_compileRoots_iff (nodes : List Node) :
    (∃ roots, compileRoots options dialect index nodes = .ok roots) ↔
      ∀ node ∈ nodes, ∃ root, options.compileRoot dialect node = .ok root := by
  constructor
  · rintro ⟨roots, hroots⟩ node hnode
    have hmem := List.mem_map_of_mem (f := options.compileRoot dialect) hnode
    rw [(compileRoots_eq_ok_iff options dialect index nodes roots).mp hroots, List.mem_map] at hmem
    obtain ⟨root, -, hroot⟩ := hmem
    exact ⟨root, hroot.symm⟩
  · intro hnodes
    cases hroots : compileRoots options dialect index nodes with
    | ok roots => exact ⟨roots, rfl⟩
    | error refusal =>
        obtain ⟨before, node, after, own, rfl, -, hnode, -⟩ :=
          (compileRoots_eq_error_iff options dialect index nodes refusal).mp hroots
        obtain ⟨root, hroot⟩ := hnodes node (by simp)
        rw [hnode] at hroot
        cases hroot

end Roots

namespace Template

variable (template : Template) (options : Options)

/-- The dialect that a template is compiled for. -/
def dialectUnder : Dialect :=
  options.dialect.getD template.dialect

theorem compile_eq_map :
    template.compile options =
      (compileRoots options (template.dialectUnder options) 0 template.roots).map Artifact.mk :=
  rfl

theorem compile_eq_ok_iff (artifact : Artifact) :
    template.compile options = .ok artifact ↔
      template.roots.map (options.compileRoot (template.dialectUnder options)) =
        artifact.roots.map .ok := by
  rw [← compileRoots_eq_ok_iff options _ 0, compile_eq_map]
  obtain ⟨roots⟩ := artifact
  cases compileRoots options (template.dialectUnder options) 0 template.roots <;> simp [Except.map]

theorem compile_eq_error_iff (refusal : Refusal) :
    template.compile options = .error refusal ↔
      compileRoots options (template.dialectUnder options) 0 template.roots = .error refusal := by
  rw [compile_eq_map]
  cases compileRoots options (template.dialectUnder options) 0 template.roots <;> simp [Except.map]

theorem exists_compile_iff :
    (∃ artifact, template.compile options = .ok artifact) ↔
      ∀ node ∈ template.roots,
        ∃ root, options.compileRoot (template.dialectUnder options) node = .ok root := by
  rw [← exists_compileRoots_iff options _ 0, compile_eq_map]
  cases compileRoots options (template.dialectUnder options) 0 template.roots <;> simp [Except.map]

end Template

/-- A root element that words can count is refused for exactly these reasons, in this order and with
these particulars.  A template compiles if all its roots do, and is refused for the first of them
that is refused. -/
theorem compile_refuses_exactly :
    (∀ (e : Element) (dialect : Dialect), e.toNode.FitsWords →
      (∀ count, e.toNode.compile dialect =
          .error ⟨0, [e.tag], .capacityExceeded .expressions count⟩ ↔
        count = e.placeholderCount ∧ 64 < count) ∧
      (∀ path tag, e.toNode.compile dialect = .error ⟨0, path, .voidElementChildren tag⟩ ↔
        e.placeholderCount ≤ 64 ∧ ∃ site, e.firstOverfull? = some site ∧ site.path = path ∧
          site.node.tag? = some tag) ∧
      (∀ count, e.toNode.compile dialect =
          .error ⟨0, [e.tag], .capacityExceeded .stateSlots count⟩ ↔
        e.placeholderCount ≤ 64 ∧ e.firstOverfull? = none ∧
          count = e.neededSlots ∧ 64 ≤ count) ∧
      (∀ count, e.toNode.compile dialect =
          .error ⟨0, [e.tag], .capacityExceeded .childSlots count⟩ ↔
        e.placeholderCount ≤ 64 ∧ e.firstOverfull? = none ∧ e.neededSlots < 64 ∧
          count = e.insertionCount ∧ 64 ≤ count) ∧
      ((∃ block, e.toNode.compile dialect = .ok (.block block)) ↔
        e.placeholderCount ≤ 64 ∧ e.firstOverfull? = none ∧ e.neededSlots < 64 ∧
          e.insertionCount < 64)) ∧
    ∀ (template : Template) (options : Options),
      ((∃ artifact, template.compile options = .ok artifact) ↔
        ∀ node ∈ template.roots,
          ∃ root, options.compileRoot (template.dialectUnder options) node = .ok root) ∧
      (∀ artifact, template.compile options = .ok artifact ↔
        template.roots.map (options.compileRoot (template.dialectUnder options)) =
          artifact.roots.map .ok) ∧
      ∀ refusal, template.compile options = .error refusal ↔
        ∃ before node after own, template.roots = before ++ node :: after ∧
          (∀ earlier ∈ before,
            ∃ root, options.compileRoot (template.dialectUnder options) earlier = .ok root) ∧
          options.compileRoot (template.dialectUnder options) node = .error own ∧
          refusal = { own with root := before.length } := by
  constructor
  · intro e dialect hfits
    rcases Element.compile_cases hfits dialect with ⟨hmany, h⟩ | ⟨hfew, ⟨site, hsite, h⟩ | ⟨hnone,
      ⟨hslots, h⟩ | ⟨hslots, ⟨hmounts, h⟩ | ⟨hmounts, block, h⟩⟩⟩⟩
    · -- Too many placeholders: no other fault is looked for.
      refine ⟨fun count => ?_, fun path tag => ?_, fun count => ?_, fun count => ?_, ?_⟩
      all_goals
        simp [h, Nat.not_le.mpr hmany]
      omega
    · -- A void element with children, and the path to it tells its tag.
      simp [h, hfew, hsite, Element.tag?_of_firstOverfull? hsite]
    · -- Too many slots.
      refine ⟨fun count => ?_, fun path tag => ?_, fun count => ?_, fun count => ?_, ?_⟩
      all_goals
        simp [h, hfew, hnone, Nat.not_lt.mpr hslots]
      all_goals
        omega
    · -- Too many insertions.
      refine ⟨fun count => ?_, fun path tag => ?_, fun count => ?_, fun count => ?_, ?_⟩
      all_goals
        simp [h, hfew, hnone, hslots, Nat.not_lt.mpr hmounts]
      all_goals
        omega
    · -- No fault at all.
      simp +contextual [h, hfew, hnone, hslots, hmounts]
  · intro template options
    refine ⟨template.exists_compile_iff options, template.compile_eq_ok_iff options, ?_⟩
    intro refusal
    have hroots := compileRoots_eq_error_iff options (template.dialectUnder options) 0
      template.roots refusal
    simp only [Nat.zero_add] at hroots
    rw [template.compile_eq_error_iff options, hroots]

/-- A root with a line break that has a child. -/
def Element.broken : Element where
  tag := "div"
  properties := [⟨.attr, "title", .bound ⟨1⟩⟩]
  children := [.text "a", .element "br" [] [.placeholder ⟨2⟩]]

theorem compile_broken :
    Element.broken.toNode.FitsWords ∧ Element.broken.placeholderCount = 2 ∧
      Element.broken.toNode.compile .html =
        .error ⟨0, ["div", "br"], .voidElementChildren "br"⟩ := by
  have hfits : Element.broken.toNode.FitsWords := ⟨by decide, by decide⟩
  obtain ⟨-, hvoid, -⟩ := compile_refuses_exactly.1 Element.broken .html hfits
  exact ⟨hfits, by decide, (hvoid _ _).mpr ⟨by decide, _, rfl, rfl, rfl⟩⟩

end DomTemplate

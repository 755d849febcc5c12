import Mathlib
import DomTemplate.Proofs.NormalForm
import DomTemplate.Proofs.Outcome
import DomTemplate.Proofs.Page.Basic

/-!
# The clone of a shell

The clone of an element is the page that its shell denotes: the placeholders are left out, and a
separator stands wherever the markup has one.  Each node is identified by its place in the
template, so no two nodes of a clone have the same identity.
-/

namespace DomTemplate

variable {ν : Type}

namespace Node

mutual

/-- What is left of a node in the clone; nothing if it is a placeholder. -/
def clone (place : List Nat) : Node → List (Dom NodeId ν)
  | element tag properties children =>
    [.element (.cloned place) tag (.ofProperties properties) [] (cloneAll place 0 .start children)]
  | text value => [.text (.cloned place) value]
  | placeholder _ => []

/-- The same for the children of the element at `place` from number `index` on. -/
def cloneAll (place : List Nat) (index : Nat) (gap : Shell.Gap) :
    List Node → List (Dom NodeId ν)
  | [] => []
  | node :: rest =>
    (gap.separators node).map (fun _ => .separator (.separator (place ++ [index]))) ++
      clone (place ++ [index]) node ++ cloneAll place (index + 1) (gap.past node) rest

end

end Node

/-- The page that the shell of an element denotes. -/
def Element.clone (e : Element) : Dom NodeId ν :=
  .element (.cloned []) e.tag (.ofProperties e.properties) []
    (Node.cloneAll [] 0 .start e.children)

/-! ## Markup -/

namespace Shell

theorem attributes_eq (properties : List Property) (style : String) :
    attributes properties style =
      ((properties.filterMap Attributes.field?).map Attributes.fieldText,
        (properties.filterMap Attributes.declaration?).foldl appendStyle style) := by
  induction properties generalizing style with
  | nil => rfl
  | cons p rest ih =>
      obtain ⟨kind, key, value⟩ := p
      simp only [List.filterMap_cons, Attributes.field?, Attributes.declaration?]
      cases kind with
      | attr =>
          cases value with
          | string value =>
              by_cases hkey : key = "style"
              · simp [attributes, ih, hkey]
              · simp [attributes, ih, hkey, Attributes.fieldText]
          | bool value =>
              cases value with
              | false => simp [attributes, ih]
              | true =>
                  by_cases hkey : key = "style"
                  · simp [attributes, ih, hkey]
                  · simp [attributes, ih, hkey, Attributes.fieldText]
          | bound target => simp [attributes, ih]
      | style => cases value <;> simp [attributes, ih]
      | _ => simp [attributes, ih]

theorem openTag_eq (name : String) (properties : List Property) :
    openTag name properties =
      ("<" ++ name) :: (Attributes.ofProperties properties).parts ++ [">"] := by
  unfold openTag
  rw [attributes_eq]
  simp only [Attributes.parts, Attributes.ofProperties, List.cons_append, List.append_assoc]
  rfl

end Shell

namespace Dom

variable {ι : Type}

theorem partsAll_append (write : ν → String) (nodes more : List (Dom ι ν)) :
    partsAll write (nodes ++ more) = partsAll write nodes ++ partsAll write more := by
  induction nodes with
  | nil => rfl
  | cons node rest ih => simp [partsAll, ih]

end Dom

namespace Node

/-- A separator on the page for each one in the markup. -/
theorem partsAll_separators (write : ν → String) (gap : Shell.Gap) (node : Node) (id : NodeId) :
    Dom.partsAll write ((gap.separators node).map fun _ => (.separator id : Dom NodeId ν)) =
      gap.separators node := by
  unfold Shell.Gap.separators
  split
  · rfl
  · rfl

mutual

/-- The clone of a node has the markup of its shell. -/
theorem partsAll_clone (write : ν → String) (place : List Nat) {path parts : List String} :
    ∀ {node : Node}, Shell.ofNode path node = .ok parts →
      Dom.partsAll write (clone place node) = parts
  | element tag properties children, h => by
      simp only [Shell.ofNode] at h
      by_cases hvoid : isVoid tag = true
      · rw [if_pos hvoid] at h
        split at h
        · cases h
          simp [clone, Dom.partsAll, Dom.parts, Shell.openTag_eq, hvoid]
        · cases h
      · rw [if_neg hvoid] at h
        obtain ⟨inner, hinner, hparts⟩ := bind_eq_ok_iff.mp h
        cases hparts
        have hchildren := partsAll_cloneAll write place 0 hinner
        simp [clone, Dom.partsAll, Dom.parts, Shell.openTag_eq, hvoid, hchildren]
  | text value, h => by
      cases h
      rfl
  | placeholder target, h => by
      cases h
      rfl

theorem partsAll_cloneAll (write : ν → String) (place : List Nat) (index : Nat)
    {path parts : List String} {gap : Shell.Gap} :
    ∀ {nodes : List Node}, Shell.ofNodes path gap nodes = .ok parts →
      Dom.partsAll write (cloneAll place index gap nodes) = parts
  | [], h => by
      cases h
      rfl
  | node :: rest, h => by
      simp only [Shell.ofNodes] at h
      obtain ⟨own, hown, h⟩ := bind_eq_ok_iff.mp h
      obtain ⟨more, hmore, h⟩ := bind_eq_ok_iff.mp h
      cases h
      rw [cloneAll, Dom.partsAll_append, Dom.partsAll_append, partsAll_separators,
        partsAll_clone write _ hown, partsAll_cloneAll write place (index + 1) hmore]

end

end Node

/-- Keeping a bare element as its tag does not change the markup, provided that nothing but the
end of the opening tag looks like it. -/
theorem Shell.markup_ofParts (name : String) (attributes closing : List String)
    (hattributes : ∀ part ∈ attributes, part ≠ ">")
    (hclosing : closing.length ≤ 1 →
      String.join closing = if isVoid name then "" else "</" ++ name ++ ">") :
    (Shell.ofParts name (("<" ++ name) :: attributes ++ [">"] ++ closing)).markup =
      String.join (("<" ++ name) :: attributes ++ [">"] ++ closing) := by
  unfold Shell.ofParts
  split
  · rename_i hbare
    simp only [Bool.and_eq_true, decide_eq_true_eq, beq_iff_eq] at hbare
    obtain ⟨hlength, hsecond⟩ := hbare
    cases attributes with
    | cons part rest =>
        -- An attribute in second place would be taken for the end of the tag.
        have hpart : part = ">" := by simpa using hsecond
        exact absurd hpart (hattributes part (by simp))
    | nil =>
        have hshort : closing.length ≤ 1 := by
          simp at hlength
          omega
        simp only [Shell.markup, List.nil_append, List.cons_append, String.join_cons,
          hclosing hshort]
        split
        · simp
        · have hmiddle : "></" = ">" ++ "</" := by decide
          simp only [hmiddle, String.append_assoc]
  · rfl

theorem Attributes.fieldText_ne (field : String × Option String) : fieldText field ≠ ">" := by
  intro h
  have hhead := congrArg (fun text => text.toList.head?) h
  obtain ⟨key, value⟩ := field
  cases value <;> simp [fieldText] at hhead

theorem Attributes.ne_of_mem_parts (attributes : Attributes) {part : String}
    (hpart : part ∈ attributes.parts) : part ≠ ">" := by
  unfold parts at hpart
  rcases List.mem_append.mp hpart with hfield | hstyle
  · obtain ⟨field, -, rfl⟩ := List.mem_map.mp hfield
    exact fieldText_ne field
  · split at hstyle
    · simp at hstyle
    · intro h
      rw [List.mem_singleton.mp hstyle] at h
      have hhead := congrArg (fun text => text.toList.head?) h
      simp at hhead

/-- The clone of an element has the markup of its shell. -/
theorem Element.markup_clone (e : Element) (write : ν → String) {shell : Shell}
    (h : Shell.ofElement e = .ok shell) :
    (e.clone : Dom NodeId ν).markup write = shell.markup := by
  unfold Shell.ofElement at h
  cases hparts : Shell.ofNode [] e.toNode with
  | error path => simp [hparts, Except.map] at h
  | ok parts =>
      simp only [hparts, Except.map, Except.ok.injEq] at h
      subst h
      have hclone : (e.clone : Dom NodeId ν).parts write = parts := by
        have h := Node.partsAll_clone write [] hparts
        simpa [Node.clone, Element.toNode, Element.clone, Dom.partsAll] using h
      rw [Dom.markup, hclone, ← hclone]
      simp only [Element.clone, Dom.parts]
      refine (Shell.markup_ofParts _ _ _ (fun part => Attributes.ne_of_mem_parts _) ?_).symm
      intro hshort
      split
      · rfl
      · rename_i hvoid
        rw [if_neg hvoid, List.length_append, List.length_singleton] at hshort
        generalize Dom.partsAll write _ = inner at hshort ⊢
        have hnil : inner = [] := List.eq_nil_of_length_eq_zero (by omega)
        simp [hnil]

/-! ## Parsing -/

namespace Dom

variable {ι : Type}

theorem areParsed_text (afterText : Bool) (id : ι) (value : String) (rest : List (Dom ι ν)) :
    areParsed afterText (.text id value :: rest) =
      (value ≠ "" && !afterText && areParsed true rest) := by
  rw [areParsed]

theorem areParsed_separator (afterText : Bool) (id : ι) (rest : List (Dom ι ν)) :
    areParsed afterText (.separator id :: rest) = areParsed false rest := by
  rw [areParsed]
  · simp [isParsed]
  · simp

theorem areParsed_element (afterText : Bool) (id : ι) (tag : String) (attributes : Attributes)
    (log : List (LogEntry ν)) (children rest : List (Dom ι ν)) :
    areParsed afterText (.element id tag attributes log children :: rest) =
      (areParsed false children && areParsed false rest) := by
  rw [areParsed]
  · simp [isParsed]
  · simp

end Dom

namespace Node

mutual

/-- The clone of a normal form could come out of parsing. -/
theorem isParsed_of_mem_clone (place : List Nat) :
    ∀ {node : Node}, node.isNormal = true → node.isText = false →
      ∀ copy ∈ (clone place node : List (Dom NodeId ν)), copy.isParsed = true
  | element tag properties children, hnormal, _, copy, hcopy => by
      rw [isNormal] at hnormal
      rw [clone, List.mem_singleton] at hcopy
      rw [hcopy, Dom.isParsed]
      exact areParsed_cloneAll place 0 .start hnormal
  | placeholder target, _, _, copy, hcopy => by
      simp [clone] at hcopy

/-- The last node on the page is a text if the last constant sibling was one.  If that text is the
left neighbour itself, normality forbids another one right behind it, and if a placeholder came
after it, a separator keeps the two apart. -/
theorem areParsed_cloneAll (place : List Nat) (index : Nat) (gap : Shell.Gap) :
    ∀ {nodes : List Node}, areNormal (gap.afterText && !gap.placeholder) nodes = true →
      Dom.areParsed gap.afterText (cloneAll place index gap nodes : List (Dom NodeId ν)) = true
  | [], _ => by
      simp [cloneAll, Dom.areParsed]
  | element tag properties children :: rest, h => by
      rw [areNormal_cons_of_not_text _ _ rfl, Bool.and_eq_true] at h
      obtain ⟨hnormal, hrest⟩ := h
      have hown := isParsed_of_mem_clone (place ++ [index]) hnormal rfl _
        (List.mem_singleton_self _)
      have hmore := areParsed_cloneAll place (index + 1) ⟨false, false⟩ hrest
      rw [Dom.isParsed] at hown
      simp [cloneAll, clone, Shell.Gap.separators, Shell.Gap.past, isText, Dom.areParsed_element,
        hown, hmore]
  | text value :: rest, h => by
      obtain ⟨afterText, behind⟩ := gap
      simp only [areNormal_text, Bool.and_eq_true, Bool.not_eq_true', decide_eq_true_eq] at h
      obtain ⟨⟨hvalue, hneighbour⟩, hrest⟩ := h
      have hmore := areParsed_cloneAll place (index + 1) ⟨true, false⟩ hrest
      cases afterText with
      | false =>
          simp [cloneAll, clone, Shell.Gap.separators, Shell.Gap.past, Dom.areParsed_text, hvalue,
            hmore]
      | true =>
          have hbehind : behind = true := by simpa using hneighbour
          simp [cloneAll, clone, Shell.Gap.separators, Shell.Gap.past, isText, hbehind,
            Dom.areParsed_separator, Dom.areParsed_text, hvalue, hmore]
  | placeholder target :: rest, h => by
      rw [areNormal_cons_of_not_text _ _ rfl, Bool.and_eq_true] at h
      have hmore := areParsed_cloneAll place (index + 1) { gap with placeholder := true }
        (by simpa using h.2)
      simpa [cloneAll, clone, Shell.Gap.separators, Shell.Gap.past, isText] using hmore

end

end Node

/-- The clone of a normal form is what its shell denotes. -/
theorem Element.denotes_clone (e : Element) (hnormal : e.toNode.isNormal = true) {shell : Shell}
    (hshell : Shell.ofElement e = .ok shell) :
    shell.Denotes (e.clone : Dom NodeId ν) := by
  constructor
  · exact Node.isParsed_of_mem_clone [] hnormal rfl _ (List.mem_singleton_self _)
  · intro write
    exact e.markup_clone write hshell

/-! ## Identities -/

namespace NodeId

/-- Whether a node comes from the template at or below a place. -/
def Within (place : List Nat) : NodeId → Prop
  | cloned other => place <+: other
  | separator other => place <+: other
  | mounted _ => False

theorem Within.up {place : List Nat} {index : Nat} {id : NodeId}
    (h : id.Within (place ++ [index])) : id.Within place := by
  cases id with
  | cloned other => exact (List.prefix_append place [index]).trans h
  | separator other => exact (List.prefix_append place [index]).trans h
  | mounted number => exact h

theorem index_unique_of_prefix {place other : List Nat} {i j : Nat} (hi : place ++ [i] <+: other)
    (hj : place ++ [j] <+: other) : i = j := by
  have hle : (place ++ [i]).length ≤ (place ++ [j]).length := by simp
  have hprefix := List.prefix_of_prefix_length_le hi hj hle
  simpa using hprefix

/-- The parts of a template below two children of one element are disjoint. -/
theorem Within.index_unique {place : List Nat} {i j : Nat} {id : NodeId}
    (hi : id.Within (place ++ [i])) (hj : id.Within (place ++ [j])) : i = j := by
  cases id with
  | cloned other => exact index_unique_of_prefix hi hj
  | separator other => exact index_unique_of_prefix hi hj
  | mounted number => exact hi.elim

theorem not_within_child (place : List Nat) (index : Nat) :
    ¬ (cloned place).Within (place ++ [index]) := by
  intro h
  have hlength := List.IsPrefix.length_le h
  simp at hlength

end NodeId

namespace Dom

variable {ι : Type}

theorem idsAll_append (nodes more : List (Dom ι ν)) :
    idsAll (nodes ++ more) = idsAll nodes ++ idsAll more := by
  induction nodes with
  | nil => rfl
  | cons node rest ih => simp [idsAll, ih]

end Dom

namespace Node

/-- At most one separator is put in front of a node, and only if the node is a text. -/
theorem separators_cases (gap : Shell.Gap) (node : Node) (id : NodeId) :
    (gap.separators node).map (fun _ => (.separator id : Dom NodeId ν)) = [] ∨
      node.isText = true ∧
        (gap.separators node).map (fun _ => (.separator id : Dom NodeId ν)) = [.separator id] := by
  unfold Shell.Gap.separators
  split
  · rename_i h
    simp only [Bool.and_eq_true] at h
    exact .inr ⟨h.1.1, rfl⟩
  · exact .inl rfl

mutual

theorem within_of_mem_clone (place : List Nat) {id : NodeId} :
    ∀ {node : Node}, id ∈ Dom.idsAll (clone place node : List (Dom NodeId ν)) → id.Within place
  | element tag properties children, h => by
      simp only [clone, Dom.idsAll, Dom.ids, List.append_nil, List.mem_cons] at h
      rcases h with rfl | h
      · exact List.prefix_refl place
      · obtain ⟨k, -, hk⟩ := within_of_mem_cloneAll place 0 .start h
        exact hk.up
  | text value, h => by
      simp only [clone, Dom.idsAll, Dom.ids, List.append_nil, List.mem_singleton] at h
      rw [h]
      exact List.prefix_refl place
  | placeholder target, h => by
      simp [clone, Dom.idsAll] at h

theorem within_of_mem_cloneAll (place : List Nat) (index : Nat) (gap : Shell.Gap) {id : NodeId} :
    ∀ {nodes : List Node}, id ∈ Dom.idsAll (cloneAll place index gap nodes : List (Dom NodeId ν)) →
      ∃ k, index ≤ k ∧ id.Within (place ++ [k])
  | [], h => by
      simp [cloneAll, Dom.idsAll] at h
  | node :: rest, h => by
      simp only [cloneAll, Dom.idsAll_append, List.mem_append] at h
      rcases h with (hseparator | hown) | hrest
      · rcases separators_cases (ν := ν) gap node (.separator (place ++ [index])) with
          hnone | ⟨-, hone⟩
        · simp [hnone, Dom.idsAll] at hseparator
        · rw [hone] at hseparator
          simp only [Dom.idsAll, Dom.ids, List.append_nil, List.mem_singleton] at hseparator
          exact ⟨index, le_rfl, by rw [hseparator]; exact List.prefix_refl _⟩
      · exact ⟨index, le_rfl, within_of_mem_clone _ hown⟩
      · obtain ⟨k, hk, hwithin⟩ := within_of_mem_cloneAll place (index + 1) _ hrest
        exact ⟨k, by omega, hwithin⟩

end

mutual

theorem nodup_clone (place : List Nat) :
    ∀ node : Node, (Dom.idsAll (clone place node : List (Dom NodeId ν))).Nodup
  | element tag properties children => by
      simp only [clone, Dom.idsAll, Dom.ids, List.append_nil, List.nodup_cons]
      refine ⟨fun h => ?_, nodup_cloneAll place 0 .start children⟩
      obtain ⟨k, -, hk⟩ := within_of_mem_cloneAll place 0 .start h
      exact NodeId.not_within_child place k hk
  | text value => by
      simp [clone, Dom.idsAll, Dom.ids]
  | placeholder target => by
      simp [clone, Dom.idsAll]

theorem nodup_cloneAll (place : List Nat) (index : Nat) (gap : Shell.Gap) :
    ∀ nodes : List Node,
      (Dom.idsAll (cloneAll place index gap nodes : List (Dom NodeId ν))).Nodup
  | [] => by
      simp [cloneAll, Dom.idsAll]
  | node :: rest => by
      have hown := nodup_clone (place ++ [index]) node
      have hrest := nodup_cloneAll place (index + 1) (gap.past node) rest
      have hapart (id : NodeId) (hwithin : id.Within (place ++ [index])) :
          id ∉ Dom.idsAll
            (cloneAll place (index + 1) (gap.past node) rest : List (Dom NodeId ν)) := by
        intro hid
        obtain ⟨k, hk, hother⟩ := within_of_mem_cloneAll place (index + 1) _ hid
        have hindex := hwithin.index_unique hother
        omega
      have hmore : (Dom.idsAll (clone (place ++ [index]) node ++
          cloneAll place (index + 1) (gap.past node) rest : List (Dom NodeId ν))).Nodup := by
        rw [Dom.idsAll_append, List.nodup_append']
        exact ⟨hown, hrest, fun id hid => hapart id (within_of_mem_clone _ hid)⟩
      rw [cloneAll, List.append_assoc]
      rcases separators_cases (ν := ν) gap node (.separator (place ++ [index])) with
        hnone | ⟨htext, hone⟩
      · rw [hnone]
        exact hmore
      · rw [hone]
        have hseparator : NodeId.separator (place ++ [index]) ∉
            Dom.idsAll (clone (place ++ [index]) node ++
              cloneAll place (index + 1) (gap.past node) rest : List (Dom NodeId ν)) := by
          rw [Dom.idsAll_append, List.mem_append, not_or]
          refine ⟨?_, hapart _ (List.prefix_refl _)⟩
          cases node with
          | text value => simp [clone, Dom.idsAll, Dom.ids]
          | element tag properties children => simp [isText] at htext
          | placeholder target => simp [isText] at htext
        exact List.nodup_cons.mpr ⟨hseparator, hmore⟩

end

end Node

/-- No two nodes of a clone are the same. -/
theorem Element.nodup_ids_clone (e : Element) : (e.clone : Dom NodeId ν).ids.Nodup := by
  have h := Node.nodup_clone (ν := ν) [] e.toNode
  simpa [Node.clone, Element.toNode, Element.clone, Dom.idsAll] using h

end DomTemplate

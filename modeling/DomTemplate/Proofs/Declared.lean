import Mathlib
import DomTemplate.Proofs.Merging
import DomTemplate.Proofs.Refusals

/-!
# The markup that a tree declares

The markup of a shell can be read off the tree of its root: each element with its constant
attributes, its inline style and its children, and each text with its value.  Placeholders leave
nothing, but a text has a separator in front of it if one or more of them stand between it and
another text.

Whether a separator is needed is told here by the siblings to the left, and not by flags that are
kept on the way.
-/

namespace DomTemplate

/-! ## Declared markup -/

/-- The inline style that some properties declare.  A semicolon comes before each declaration that
has something in front of it. -/
def declaredStyle (properties : List Property) : String :=
  (properties.filterMap Attributes.declaration?).foldl
    (fun style declaration => if style = "" then declaration else style ++ ";" ++ declaration) ""

/-- The opening tag that an element declares. -/
def declaredTag (tag : String) (properties : List Property) : String :=
  "<" ++ tag ++ String.join ((properties.filterMap Attributes.field?).map Attributes.fieldText) ++
    (if declaredStyle properties = "" then ""
      else " style=\"" ++ declaredStyle properties ++ "\"") ++
    ">"

namespace Node

/-- Whether placeholders part a text from another one to the left.  The siblings on the left are
given from the nearest on: the first that is no placeholder has to be a text, and there has to be a
placeholder before it. -/
def isParted (left : List Node) : Bool :=
  (left.find? fun node => !node.isPlaceholder).any isText && left.head?.any isPlaceholder

mutual

/-- The markup that a node declares. -/
def declared : Node → String
  | element tag properties children =>
    declaredTag tag properties ++
      if isVoid tag then "" else declaredAll [] children ++ "</" ++ tag ++ ">"
  | text value => value
  | placeholder _ => ""

/-- The markup that siblings declare, with the siblings on their left given from the nearest on. -/
def declaredAll (left : List Node) : List Node → String
  | [] => ""
  | node :: rest =>
    (if node.isText && isParted left then "<!>" else "") ++ node.declared ++
      declaredAll (node :: left) rest

end

end Node

namespace Shell

/-! ## Gaps -/

/-- The gap behind some siblings, given from the nearest on. -/
def Gap.behind (left : List Node) : Gap where
  afterText := (left.find? fun node => !node.isPlaceholder).any Node.isText
  placeholder := left.head?.any Node.isPlaceholder

/-- The flags that are kept on the way tell about the siblings on the left. -/
theorem Gap.past_behind (left : List Node) (node : Node) :
    (Gap.behind left).past node = Gap.behind (node :: left) := by
  cases node with
  | element tag properties children => rfl
  | text value => rfl
  | placeholder target => rfl

theorem join_separators_behind (left : List Node) (node : Node) :
    String.join ((Gap.behind left).separators node) =
      if node.isText && Node.isParted left then "<!>" else "" := by
  have hparted : Node.isParted left =
      ((Gap.behind left).afterText && (Gap.behind left).placeholder) := rfl
  rw [Gap.separators, hparted, Bool.and_assoc]
  split
  · rfl
  · rfl

/-! ## Markup -/

theorem join_openTag (name : String) (properties : List Property) :
    String.join (openTag name properties) = declaredTag name properties := by
  have hstyle : (Attributes.ofProperties properties).style = declaredStyle properties := rfl
  rw [openTag_eq, Attributes.parts, hstyle, declaredTag]
  split
  · simp [Attributes.ofProperties, String.append_assoc]
  · simp [Attributes.ofProperties, String.append_assoc]

/-- The markup of an element is its opening tag, and if it is not void, also that of its children
and the closing tag. -/
theorem ofNode_element_eq_ok {path parts : List String} {name : String}
    {properties : List Property} {children : List Node}
    (h : ofNode path (.element name properties children) = .ok parts) :
    (isVoid name = true ∧ children = [] ∧ parts = openTag name properties) ∨
      (isVoid name = false ∧ ∃ inner, ofNodes (path ++ [name]) .start children = .ok inner ∧
        parts = openTag name properties ++ inner ++ ["</" ++ name ++ ">"]) := by
  rw [ofNode] at h
  by_cases hvoid : isVoid name = true
  · rw [if_pos hvoid] at h
    split at h
    · rename_i hnone
      cases h
      exact .inl ⟨hvoid, List.isEmpty_iff.mp hnone, rfl⟩
    · cases h
  · rw [if_neg hvoid] at h
    obtain ⟨inner, hinner, hparts⟩ := bind_eq_ok_iff.mp h
    cases hparts
    exact .inr ⟨Bool.eq_false_iff.mpr hvoid, inner, hinner, rfl⟩

mutual

/-- The markup of a node is what it declares. -/
theorem join_ofNode {path parts : List String} :
    ∀ {node : Node}, ofNode path node = .ok parts → String.join parts = node.declared
  | .element name properties children, h => by
      rw [Node.declared]
      rcases ofNode_element_eq_ok h with ⟨hvoid, -, rfl⟩ | ⟨hvoid, inner, hinner, rfl⟩
      · rw [if_pos hvoid, join_openTag, String.append_empty]
      · have hchildren : String.join inner = Node.declaredAll [] children := join_ofNodes hinner
        simp [hvoid, join_openTag, hchildren, String.append_assoc]
  | .text value, h => by
      cases h
      simp [Node.declared]
  | .placeholder target, h => by
      cases h
      rfl

theorem join_ofNodes {path parts : List String} {left : List Node} :
    ∀ {nodes : List Node}, ofNodes path (.behind left) nodes = .ok parts →
      String.join parts = Node.declaredAll left nodes
  | [], h => by
      cases h
      rfl
  | node :: rest, h => by
      rw [ofNodes, Gap.past_behind] at h
      obtain ⟨own, hown, h⟩ := bind_eq_ok_iff.mp h
      obtain ⟨more, hmore, h⟩ := bind_eq_ok_iff.mp h
      cases h
      rw [String.join_append, String.join_append, join_separators_behind, join_ofNode hown,
        join_ofNodes hmore, Node.declaredAll]

end

/-! ## Bare elements -/

theorem openTag_ne_nil (name : String) (properties : List Property) :
    openTag name properties ≠ [] := by
  rw [openTag_eq]
  simp

/-- Only a placeholder leaves nothing in the markup. -/
theorem ofNode_eq_nil_iff {path parts : List String} {node : Node}
    (h : ofNode path node = .ok parts) : parts = [] ↔ node.isPlaceholder = true := by
  cases node with
  | element name properties children =>
      have hparts : parts ≠ [] := by
        rcases ofNode_element_eq_ok h with ⟨-, -, rfl⟩ | ⟨-, inner, -, rfl⟩
        · exact openTag_ne_nil name properties
        · simp
      simp [hparts, Node.isPlaceholder]
  | text value =>
      cases h
      simp [Node.isPlaceholder]
  | placeholder target =>
      cases h
      simp [Node.isPlaceholder]

theorem ofNodes_eq_nil_iff {path parts : List String} {gap : Gap} {nodes : List Node}
    (h : ofNodes path gap nodes = .ok parts) :
    parts = [] ↔ ∀ node ∈ nodes, node.isPlaceholder = true := by
  induction nodes generalizing gap parts with
  | nil =>
      cases h
      simp
  | cons node rest ih =>
      rw [ofNodes] at h
      obtain ⟨own, hown, h⟩ := bind_eq_ok_iff.mp h
      obtain ⟨more, hmore, h⟩ := bind_eq_ok_iff.mp h
      cases h
      rw [List.append_eq_nil_iff, List.append_eq_nil_iff, ofNode_eq_nil_iff hown, ih hmore,
        List.forall_mem_cons]
      -- A separator stands only in front of a text, which leaves its value anyway.
      have hseparators : node.isPlaceholder = true → gap.separators node = [] := by
        intro hnode
        obtain ⟨target, rfl⟩ := node.isPlaceholder_iff.mp hnode
        rfl
      tauto

/-- With at most one part behind the opening tag, a shell is kept as its tag if the tag has no
constant attributes and no style. -/
theorem ofParts_openTag_eq_tag_iff (name : String) (properties : List Property)
    (closing : List String) (hclosing : closing.length ≤ 1) :
    ofParts name (openTag name properties ++ closing) = .tag name ↔
      properties.filterMap Attributes.field? = [] ∧ declaredStyle properties = "" := by
  have hempty : (Attributes.ofProperties properties).parts = [] ↔
      properties.filterMap Attributes.field? = [] ∧ declaredStyle properties = "" := by
    have hstyle : (Attributes.ofProperties properties).style = declaredStyle properties := rfl
    rw [Attributes.parts, hstyle, List.append_eq_nil_iff, List.map_eq_nil_iff]
    simp [Attributes.ofProperties]
  rw [← hempty, openTag_eq]
  cases hparts : (Attributes.ofProperties properties).parts with
  | nil => simp [ofParts, hclosing]
  | cons part rest =>
      have hpart : part ≠ ">" := Attributes.ne_of_mem_parts _ (hparts ▸ List.mem_cons_self)
      simp [ofParts, hpart]

end Shell

namespace Element

/-- Whether a root element leaves nothing but its tags in the markup: it has no constant attribute,
no inline style and only placeholders for children. -/
def IsBare (e : Element) : Prop :=
  e.properties.filterMap Attributes.field? = [] ∧ declaredStyle e.properties = "" ∧
    ∀ child ∈ e.children, child.isPlaceholder = true

/-- The shell is kept as its tag if and only if there is nothing else to keep. -/
theorem ofParts_eq_tag_iff {e : Element} {parts : List String}
    (h : Shell.ofNode [] e.toNode = .ok parts) :
    Shell.ofParts e.tag parts = .tag e.tag ↔ e.IsBare := by
  rw [toNode] at h
  rcases Shell.ofNode_element_eq_ok h with ⟨-, hnone, rfl⟩ | ⟨-, inner, hinner, rfl⟩
  · -- A void element has no closing tag behind the opening one.
    have htag := Shell.ofParts_openTag_eq_tag_iff e.tag e.properties [] (by simp)
    rw [List.append_nil] at htag
    simp [htag, IsBare, hnone]
  · rw [Shell.ofParts_eq_tag_iff, List.isEmpty_iff, Shell.ofNodes_eq_nil_iff hinner,
      Shell.ofParts_openTag_eq_tag_iff e.tag e.properties _ (by simp), IsBare]
    tauto

end Element

theorem Shell.ofParts_eq_chunks_iff (name : String) (parts : List String) :
    (∃ pieces, Shell.ofParts name parts = .chunks pieces) ↔
      Shell.ofParts name parts ≠ .tag name := by
  unfold Shell.ofParts
  split
  · simp
  · simp

/-- A root element in which no void element has children has a shell, and the markup of the shell is
what the tree declares.  It is kept as a tag if the root leaves nothing but its tags, and in chunks
otherwise. -/
theorem shell_markup_eq_declared (e : Element)
    (hvoid : ∀ site ∈ e.sites, site.node.isOverfull = false) :
    ∃ shell, Shell.ofElement e = .ok shell ∧ shell.markup = e.toNode.declared ∧
      (shell = .tag e.tag ↔ e.IsBare) ∧ ((∃ parts, shell = .chunks parts) ↔ ¬ e.IsBare) := by
  have hnone : e.firstOverfull? = none := by
    rw [Element.firstOverfull?, List.find?_eq_none]
    intro site hsite
    simp [hvoid site hsite]
  obtain ⟨parts, hparts⟩ := Element.exists_parts_of_no_overfull hnone
  have htag := Element.ofParts_eq_tag_iff hparts
  refine ⟨Shell.ofParts e.tag parts, ?_, ?_, htag, ?_⟩
  · rw [Shell.ofElement, hparts]
    rfl
  · rw [Element.markup_ofParts hparts, Shell.join_ofNode hparts]
  · rw [Shell.ofParts_eq_chunks_iff, ne_eq, htag]

/-- A notice with both sorts of style, a flag, a bare void element, and texts that are parted by
placeholders, by an element and by nothing. -/
def Element.banner : Element where
  tag := "div"
  properties := [⟨.attr, "style", .string "a"⟩, ⟨.attr, "title", .string "t"⟩,
    ⟨.style, "color", .string "red"⟩, ⟨.attr, "hidden", .bool true⟩, ⟨.attr, "id", .bool false⟩,
    ⟨.attr, "class", .bound ⟨1⟩⟩]
  children := [.placeholder ⟨1⟩, .text "b", .placeholder ⟨2⟩, .placeholder ⟨3⟩, .text "c",
    .text "d", .element "br" [] [], .placeholder ⟨4⟩, .text "e"]

theorem shell_markup_banner :
    (∀ site ∈ Element.banner.sites, site.node.isOverfull = false) ∧
      ∃ shell, Shell.ofElement Element.banner = .ok shell ∧
        shell.markup = "<div title=\"t\" hidden style=\"a;color:red\">b<!>cd<br>e</div>" ∧
        ∃ parts, shell = .chunks parts := by
  have hvoid : ∀ site ∈ Element.banner.sites, site.node.isOverfull = false := by decide
  obtain ⟨shell, hshell, hmarkup, -, hchunks⟩ := shell_markup_eq_declared Element.banner hvoid
  refine ⟨hvoid, shell, hshell, hmarkup.trans (by decide), hchunks.mpr ?_⟩
  rintro ⟨hfields, -⟩
  exact absurd hfields (by decide)

end DomTemplate

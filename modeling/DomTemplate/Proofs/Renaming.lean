import Mathlib
import DomTemplate.Proofs.Alike

/-!
# The names of placeholders do not matter

An author numbers placeholders at will.  If they are numbered anew, in whatever order and with
whatever gaps, a root compiles to the same block as before, and only the list of its inputs shows
the new numbers.  A root that is refused is refused with the same words.

Two placeholders that get the same number are one placeholder afterwards, so the numbers must be
different for different placeholders of the root.  What becomes of others is of no importance.
-/

namespace DomTemplate

variable (f : Placeholder → Placeholder)

namespace Node

mutual

/-- The node with every placeholder under another name. -/
def rename : Node → Node
  | element tag properties children =>
    element tag (properties.map (Property.retarget f)) (renameAll children)
  | text value => text value
  | placeholder target => placeholder (f target)

def renameAll : List Node → List Node
  | [] => []
  | node :: rest => rename node :: renameAll rest

end

/-- Siblings are wired as before. -/
theorem alike_renameAll (nodes : List Node) : Alike f false nodes (renameAll f nodes) := by
  induction nodes using siblings_induction with
  | nil => exact .nil
  | element tag properties children rest ihchildren ihrest =>
      exact .element (Property.alike_retarget f properties) ihchildren ihrest
  | text value rest ih => exact .text ih
  | placeholder target rest ih => exact .placeholder ih

theorem isEmpty_renameAll (nodes : List Node) : (renameAll f nodes).isEmpty = nodes.isEmpty := by
  cases nodes <;> rfl

end Node

/-! ## The shell -/

namespace Shell

/-- Bound properties leave no trace in an opening tag. -/
theorem openTag_retarget (name : String) (properties : List Property) :
    openTag name (properties.map (Property.retarget f)) = openTag name properties := by
  have hfield : Attributes.field? ∘ Property.retarget f = Attributes.field? := by
    funext ⟨kind, key, value⟩
    cases value <;> cases kind <;> rfl
  have hdeclaration : Attributes.declaration? ∘ Property.retarget f = Attributes.declaration? := by
    funext ⟨kind, key, value⟩
    cases value <;> cases kind <;> rfl
  rw [openTag, openTag, attributes_eq, attributes_eq, List.filterMap_map, List.filterMap_map,
    hfield, hdeclaration]

theorem past_rename (gap : Gap) (node : Node) : gap.past (node.rename f) = gap.past node := by
  cases node <;> rfl

theorem separators_rename (gap : Gap) (node : Node) :
    gap.separators (node.rename f) = gap.separators node := by
  cases node <;> rfl

mutual

theorem ofNode_rename (path : List String) :
    ∀ node : Node, ofNode path (node.rename f) = ofNode path node
  | .element name properties children => by
      rw [Node.rename, ofNode, ofNode, openTag_retarget, Node.isEmpty_renameAll, ofNodes_renameAll]
  | .text value => rfl
  | .placeholder target => rfl

theorem ofNodes_renameAll (path : List String) (gap : Gap) :
    ∀ nodes : List Node, ofNodes path gap (Node.renameAll f nodes) = ofNodes path gap nodes
  | [] => rfl
  | node :: rest => by
      rw [Node.renameAll, ofNodes, ofNodes, ofNode_rename, past_rename, separators_rename,
        ofNodes_renameAll]

end

end Shell

/-! ## Blocks -/

/-- The block with its inputs under other names. -/
def Block.rename (block : Block) : Block :=
  { block with inputs := block.inputs.map f }

/-- A compiled root with its placeholders under other names. -/
def Root.rename : Root Block → Root Block
  | .block value => .block (value.rename f)
  | .text value => .text value
  | .placeholder target => .placeholder (f target)

namespace Element

/-- The element with every placeholder under another name. -/
def rename (e : Element) : Element :=
  ⟨e.tag, e.properties.map (Property.retarget f), Node.renameAll f e.children⟩

theorem alike_rename (e : Element) : e.Alike f false (e.rename f) :=
  ⟨Property.alike_retarget f e.properties, Node.alike_renameAll f e.children⟩

theorem shell_rename (e : Element) : (e.rename f).shell = e.shell := by
  have hparts : Shell.ofNode [] (e.rename f).toNode = Shell.ofNode [] e.toNode :=
    Shell.ofNode_rename f [] e.toNode
  rw [Element.shell, Element.shell, Shell.ofElement, Shell.ofElement, hparts]
  rfl

variable {f}

theorem blockOf_rename (e : Element)
    (hinj : Set.InjOn f {target | target ∈ e.toNode.targets}) (dialect : Dialect) (shell : Shell) :
    (e.rename f).blockOf dialect shell = (e.blockOf dialect shell).rename f := by
  have halike := e.alike_rename f
  have hinputs : (e.rename f).toNode.placeholders.entries = e.toNode.placeholders.entries.map f :=
    congrArg Registry.entries (halike.placeholders_eq hinj)
  simp only [blockOf, Block.rename, halike.slotsGiven_eq hinj, halike.mountCount_eq hinj,
    halike.bindStream_eq hinj, halike.mountStream_eq hinj, halike.walk_eq hinj, hinputs]

theorem compile_rename (e : Element)
    (hinj : Set.InjOn f {target | target ∈ e.toNode.targets}) (dialect : Dialect) :
    (e.rename f).toNode.compile dialect = (e.toNode.compile dialect).map (Root.rename f) := by
  have hchecked := (e.alike_rename f).checked_eq hinj rfl e.shell
  rw [compile_toNode, compile_toNode, shell_rename, hchecked]
  cases e.checked e.shell with
  | error refusal => rfl
  | ok shell =>
      have hblock := e.blockOf_rename hinj dialect shell
      exact congrArg (fun block => Except.ok (Root.block block)) hblock

end Element

variable {f}

/-- A root compiles, or is refused, as if its placeholders had kept their names, provided that no
two of them have got the same one. -/
theorem compile_commutes_with_renaming (node : Node) (dialect : Dialect)
    (hinj : Set.InjOn f {target | target ∈ node.targets}) :
    (node.rename f).compile dialect = (node.compile dialect).map (Root.rename f) := by
  cases node with
  | element tag properties children =>
      exact Element.compile_rename ⟨tag, properties, children⟩ hinj dialect
  | text value => rfl
  | placeholder target => rfl

/-- A renaming that keeps the placeholders of a paragraph apart, but not all placeholders. -/
def Placeholder.fold (target : Placeholder) : Placeholder :=
  ⟨target.id % 8⟩

theorem compile_renamed_paragraph :
    ∃ block, Element.paragraph.toNode.compile .html = .ok (.block block) ∧
      block.inputs = [⟨7⟩, ⟨3⟩, ⟨9⟩] ∧
      (Element.paragraph.toNode.rename Placeholder.fold).compile .html =
        .ok (.block { block with inputs := [⟨7⟩, ⟨3⟩, ⟨1⟩] }) := by
  have hinj : ∀ a ∈ Element.paragraph.toNode.targets, ∀ b ∈ Element.paragraph.toNode.targets,
      a.fold = b.fold → a = b := by decide
  refine ⟨_, rfl, by decide, ?_⟩
  rw [compile_commutes_with_renaming _ _ fun a ha b hb => hinj a ha b hb]
  rfl

end DomTemplate

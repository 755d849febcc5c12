import Mathlib
import DomTemplate.Source
import DomTemplate.Proofs.Json.Documents

/-!
# Templates are read back from their exchange form

A root of a template is read whole before it is interpreted.  Inside a root, nodes are interpreted
from values, so the two ways of interpreting a node have to agree on what was written.  The only
condition is on the depth of the written form: it counts every list and every object, those of
properties and children alike.
-/

namespace DomTemplate

open Json

/-! ## Understanding properties -/

theorem PropertyKind.lookup_name (kind : PropertyKind) :
    PropertyKind.names.lookup kind.name = some kind := by
  cases kind <;> rfl

theorem Dialect.lookup_name (dialect : Dialect) :
    Dialect.names.lookup dialect.name = some dialect := by
  cases dialect <;> rfl

theorem PropertyValue.ofJson_toJson (v : PropertyValue) : ofJson v.toJson = .ok v := by
  cases v with
  | string value => rfl
  | bool value => rfl
  | bound target =>
      have hlt : (target.id.toNat : Int) < UInt32.size := by exact_mod_cast target.id.toNat_lt
      simp only [toJson, ofJson, hlt, Int.natCast_nonneg, decide_true, Bool.and_self, if_true,
        Int.toNat_natCast, UInt32.ofNat_toNat]

theorem Property.ofJson_toJson (p : Property) : ofJson p.toJson = .ok p := by
  simp only [toJson, ofJson, List.foldlM_cons, PropertyFields.add, Value.asVariant,
    variant_eq p.kind.lookup_name, Value.asString, p.value.ofJson_toJson, setOnce_none, ok_bind,
    List.foldlM_nil]
  rfl

/-! ## Understanding nodes -/

/-- The fields of a written element, without its tag. -/
def elementEntries (tag : String) (properties : List Property) (children : List Node) :
    List (String × Value) :=
  [("tag", .string tag), ("properties", .array (properties.map Property.toJson)),
    ("children", .array (nodesToJson children))]

/-- The fields of an element are understood if its children are. -/
theorem elementFields_entries {tag : String} {properties : List Property} {children : List Node}
    (h : nodesOfItems (nodesToJson children) = .ok children) :
    elementFields {} (elementEntries tag properties children) =
      .ok ⟨some tag, some properties, some children⟩ := by
  simp only [elementEntries, elementFields, elementField, Value.asString,
    asList_map Property.toJson Property.ofJson_toJson, nodesOfJson, h, setOnce_none, ok_bind,
    if_true, String.reduceEq, reduceIte]

/-- The tag is no field of an element. -/
theorem elementFields_type (v : Value) (entries : List (String × Value)) :
    elementFields {} (("type", v) :: entries) = elementFields {} entries := by
  simp only [elementFields, elementField, String.reduceEq, reduceIte, ok_bind]

theorem elementEntries_ne_type (tag : String) (properties : List Property) (children : List Node) :
    ∀ entry ∈ elementEntries tag properties children, entry.1 ≠ "type" := by
  simp [elementEntries]

theorem placeholderOfJson_toNat (target : Placeholder) :
    placeholderOfJson (.integer target.id.toNat) = .ok (.placeholder target) := by
  rw [placeholderOfJson, asWord_toNat]
  rfl

/-- The value of a text or a placeholder is found with its tag beside it. -/
theorem asSingle_type {α : Type} (record : String) {read : Value → Except Cause α} {v : Value} {a : α}
    (h : read v = .ok a) (tag : Value) :
    (Value.object [("type", tag), ("value", v)]).asSingle record "value" read = .ok a := by
  simp only [Value.asSingle, Value.soleField, String.reduceEq, reduceIte, if_true, h, setOnce_none,
    ok_bind, required]

mutual

/-- A node inside an element is understood as what it was written for. -/
theorem Node.ofJson_toJson : ∀ node : Node, Node.ofJson node.toJson = .ok node
  | .element tag properties children => by
      have hchildren := nodesOfItems_nodesToJson children
      have htag : Value.tagField NodeSort.names
          (("type", .string "element") :: elementEntries tag properties children) =
            .ok NodeSort.element :=
        tagField_cons rfl (elementEntries_ne_type tag properties children)
      have hfields := elementFields_type (.string "element")
        (elementEntries tag properties children)
      rw [elementFields_entries hchildren] at hfields
      rw [Node.toJson, ← elementEntries]
      simp only [Node.ofJson, htag, hfields, ok_bind]
      rfl
  | .text value => by
      have htag : Value.tagField NodeSort.names
          [("type", .string "text"), ("value", .string value)] = .ok NodeSort.text :=
        tagField_cons rfl (by simp)
      have hvalue : textOfJson (.string value) = .ok (.text value) := rfl
      simp only [Node.toJson, Node.ofJson, htag, ok_bind, asSingle_type _ hvalue]
  | .placeholder target => by
      have htag : Value.tagField NodeSort.names
          [("type", .string "expr"), ("value", .integer target.id.toNat)] =
            .ok NodeSort.placeholder :=
        tagField_cons rfl (by simp)
      simp only [Node.toJson, Node.ofJson, htag, ok_bind,
        asSingle_type _ (placeholderOfJson_toNat target)]

theorem nodesOfItems_nodesToJson : ∀ nodes : List Node,
    nodesOfItems (nodesToJson nodes) = .ok nodes
  | [] => by rw [nodesToJson, nodesOfItems]
  | node :: rest => by
      rw [nodesToJson, nodesOfItems, node.ofJson_toJson, nodesOfItems_nodesToJson rest]
      rfl

end

/-! ## Reading -/

theorem nodesToJson_eq_map (nodes : List Node) : nodesToJson nodes = nodes.map Node.toJson := by
  induction nodes with
  | nil => rw [nodesToJson, List.map_nil]
  | cons node nodes ih => rw [nodesToJson, ih, List.map_cons]

/-- A root of a template is read back from any text of it. -/
theorem Node.node_eq (root : Node) {text : List Char} (h : Spells root.toJson text)
    (hdepth : root.toJson.depth ≤ nodeDepth + 1) (rest : List Char) :
    node "Node" NodeSort.names Node.ofRoot (text ++ rest) = .ok (root, rest) := by
  cases root with
  | element tag properties children =>
      have helement : Spells (.object (("type", .string "element") ::
          elementEntries tag properties children)) text := by
        rwa [Node.toJson] at h
      have hentries : ∀ entry ∈ elementEntries tag properties children,
          entry.2.depth ≤ nodeDepth := by
        rw [Node.toJson] at hdepth
        exact (List.forall_mem_cons.mp (Value.depth_object_le_iff.mp hdepth)).2
      refine node_spelled helement rfl (elementEntries_ne_type tag properties children) hentries
        ?_ rest
      rw [Node.ofRoot, elementFields_entries (nodesOfItems_nodesToJson children)]
      rfl
  | text value =>
      rw [Node.toJson] at h
      exact node_spelled h rfl (by simp) (by simp [Value.depth]) rfl rest
  | placeholder target =>
      rw [Node.toJson] at h
      refine node_spelled h rfl (by simp) (by simp [Value.depth]) ?_ rest
      simp only [Node.ofRoot, Value.asSingle, Value.soleField, placeholderOfJson_toNat, if_true,
        setOnce_none, ok_bind, required]

namespace Template

theorem readRoots_eq {roots : List Node} {text : List Char}
    (h : Spells (.array (nodesToJson roots)) text)
    (hdepth : (Value.array (nodesToJson roots)).depth ≤ nodeDepth + 2) (gap : Gap)
    (rest : List Char) :
    readRoots (gap.chars ++ (text ++ rest)) = .ok (roots, rest) := by
  rw [nodesToJson_eq_map] at h hdepth
  have hroots : ∀ root ∈ roots, root.toJson.depth ≤ nodeDepth + 1 := by
    simpa using Value.depth_array_le_iff.mp hdepth
  exact nodeList_spelled (fun root hroot _ rest hspells => root.node_eq hspells (hroots root hroot)
    rest) h gap rest

/-- A template is read back from any text of it. -/
theorem read_spelled (template : Template) {text : List Char}
    (h : Spells template.toJson text) (hdepth : template.toJson.depth ≤ nestingLimit) :
    read text = .ok template := by
  obtain ⟨parts, gap, hparts, hspells, rfl⟩ := h.exists_fields
  obtain ⟨first, parts, rfl, hfirst, hrest⟩ := List.map_eq_cons_iff.mp hparts.symm
  obtain ⟨second, parts, rfl, hsecond, hnone⟩ := List.map_eq_cons_iff.mp hrest
  obtain rfl : parts = [] := List.map_eq_nil_iff.mp hnone
  obtain ⟨hkind, hname⟩ := Prod.ext_iff.mp hfirst
  obtain ⟨hchildren, hnodes⟩ := Prod.ext_iff.mp hsecond
  have hnameText : first.content.text = writtenString template.dialect.name := by
    have := hspells first (by simp)
    rw [show first.content.value = _ from hname] at this
    exact this.eq_writtenString
  have hnodesText : Spells (.array (nodesToJson template.roots)) second.content.text := by
    have := hspells second (by simp)
    rwa [show second.content.value = _ from hnodes] at this
  have hnodesDepth : (Value.array (nodesToJson template.roots)).depth ≤ nodeDepth + 2 := by
    have hfields := Value.depth_object_le_iff.mp hdepth
    exact hfields ("children", _) (by simp)
  -- The state starts without dialect and roots, and each of the two fields fills in one of them.
  have hlast : FieldRun readField (some template.dialect, none) [second]
      (some template.dialect, some template.roots) := by
    refine .cons (fun rest _ => ?_) (.nil _)
    simp only [readField, show second.key = "children" from hchildren, SpelledField.tail,
      String.reduceEq, reduceIte, if_true, List.append_assoc, List.cons_append, colon_gap,
      readRoots_eq hnodesText hnodesDepth, ok_bind]
  have hrun : FieldRun readField (none, none) [first, second]
      (some template.dialect, some template.roots) := by
    refine .cons (fun rest _ => ?_) hlast
    simp only [readField, show first.key = "kind" from hkind, SpelledField.tail, hnameText,
      if_true, List.append_assoc, List.cons_append, colon_gap,
      unitVariant_written template.dialect.lookup_name, ok_bind]
  have hfields := hrun.fields_eq gap [] rfl
  rw [List.append_nil] at hfields
  simp only [read, skipSpace_cons (c := '\x7b') (by decide), readObject, hfields, ok_bind,
    endObject_brace]
  rfl

end Template

/-! ## Writing -/

theorem Property.plain_toJson (p : Property) : Plain p.toJson := by
  have hvalue : Plain p.value.toJson := by
    cases p.value with
    | string value => exact .string value
    | bool value => exact .bool value
    | bound target => exact .word target.id
  refine .object ?_
  simp [Plain.string, hvalue]

mutual

theorem Node.plain_toJson : ∀ node : Node, Plain node.toJson
  | .element tag properties children => by
      have hchildren := plain_nodesToJson children
      have hproperties : ∀ item ∈ properties.map Property.toJson, Plain item := by
        simp only [List.forall_mem_map]
        exact fun p _ => p.plain_toJson
      rw [Node.toJson]
      refine .object ?_
      simp [Plain.string, Plain.array hchildren, Plain.array hproperties]
  | .text value => by
      rw [Node.toJson]
      refine .object ?_
      simp [Plain.string]
  | .placeholder target => by
      rw [Node.toJson]
      refine .object ?_
      simp [Plain.string, Plain.word]

theorem plain_nodesToJson : ∀ nodes : List Node, ∀ item ∈ nodesToJson nodes, Plain item
  | [] => by simp [nodesToJson]
  | node :: rest => by
      rw [nodesToJson]
      exact List.forall_mem_cons.mpr ⟨node.plain_toJson, plain_nodesToJson rest⟩

end

theorem Template.plain_toJson (template : Template) : Plain template.toJson := by
  refine .object ?_
  simp [Plain.string, Plain.array (plain_nodesToJson template.roots)]

/-- A template whose written form is nested at most 127 deep is read back from that form, and in
fact from every text that differs from it in white space only. -/
theorem template_exchange_round_trip (template : Template) (hdepth : template.toJson.depth ≤ 127) :
    parseTemplate template.toJson.toText = .ok template ∧
      ∀ text : String, Spells template.toJson text.toList → parseTemplate text = .ok template := by
  have hspelled : ∀ text : String, Spells template.toJson text.toList →
      parseTemplate text = .ok template := by
    intro text htext
    rw [parseTemplate, template.read_spelled htext hdepth]
  refine ⟨hspelled _ ?_, hspelled⟩
  rw [Value.toText, String.toList_ofList]
  exact template.plain_toJson.spells_pretty 0

/-- An icon with all sorts of nodes and of property values, and with characters to escape. -/
def Template.icon : Template where
  dialect := .svg
  roots :=
    [.element "g" [⟨.attr, "d\"", .bound ⟨4294967295⟩⟩, ⟨.domValue, "x", .bool true⟩]
      [.text "a\n\\é", .placeholder ⟨7⟩, .element "path" [⟨.style, "fill", .string "\t"⟩] []],
    .text ""]

/-- The icon is read back from its written form, and from the same form further to the right. -/
theorem template_exchange_icon :
    Template.icon.toJson.depth ≤ 127 ∧
      parseTemplate Template.icon.toJson.toText = .ok Template.icon ∧
      parseTemplate (String.ofList (Template.icon.toJson.pretty 3)) = .ok Template.icon := by
  have hdepth : Template.icon.toJson.depth ≤ 127 := by decide
  have htext : Spells Template.icon.toJson
      (String.ofList (Template.icon.toJson.pretty 3)).toList := by
    rw [String.toList_ofList]
    exact Template.icon.plain_toJson.spells_pretty 3
  have hread := template_exchange_round_trip Template.icon hdepth
  exact ⟨hdepth, hread.1, hread.2 _ htext⟩

end DomTemplate

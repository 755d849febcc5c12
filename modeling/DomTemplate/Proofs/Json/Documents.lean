import Mathlib
import DomTemplate.Json.Document
import DomTemplate.Proofs.Json.Reading
import DomTemplate.Proofs.Outcome

/-!
# Nodes and lists of nodes are read back

A document is not read as a whole.  Its nodes are read one by one, the tag of each apart from its
other fields, and are interpreted at once.  What is asked of the interpretation here is only that
it understands the fields of each node.
-/

namespace DomTemplate.Json

variable {α β : Type} {variants : List (String × α)} {name : String} {a : α}

/-! ## Understanding what was written -/

theorem setOnce_none (field : String) (b : β) : setOnce field none (.ok b) = .ok (some b) :=
  rfl

theorem asWord_toNat (word : UInt32) : (Value.integer word.toNat).asWord = .ok word := by
  have hlt : (word.toNat : Int) < UInt32.size := by exact_mod_cast word.toNat_lt
  simp only [Value.asWord, hlt, Int.natCast_nonneg, decide_true, Bool.and_self, if_true,
    Int.toNat_natCast, UInt32.ofNat_toNat]

/-- A list is understood if its items are. -/
theorem asList_map {item : Value → Except Cause β} (toJson : β → Value)
    (h : ∀ b, item (toJson b) = .ok b) (values : List β) :
    (Value.array (values.map toJson)).asList item = .ok values := by
  rw [Value.asList]
  induction values with
  | nil => rfl
  | cons b values ih =>
      rw [List.map_cons, List.mapM_cons, h, ih]
      rfl

/-! ## Names of variants -/

theorem variant_eq (h : variants.lookup name = some a) : variant variants name = .ok a := by
  rw [variant, h]

theorem soleField_absent {field : String} {read : Value → Except Cause β}
    {entries : List (String × Value)} (h : ∀ entry ∈ entries, entry.1 ≠ field) (found : Option β) :
    Value.soleField field read found entries = .ok found := by
  induction entries with
  | nil => rfl
  | cons entry entries ih =>
      obtain ⟨hentry, hentries⟩ := List.forall_mem_cons.mp h
      rw [Value.soleField, if_neg hentry, ih hentries]

/-- The tag of a node stands in its first field. -/
theorem tagField_cons {entries : List (String × Value)} (h : variants.lookup name = some a)
    (hkeys : ∀ entry ∈ entries, entry.1 ≠ "type") :
    Value.tagField variants (("type", .string name) :: entries) = .ok a := by
  simp only [Value.tagField, Value.soleField, Value.asTag, variant_eq h, setOnce_none, ok_bind,
    soleField_absent hkeys, required, if_true]

theorem variantName_written (h : variants.lookup name = some a) (gap : Gap) (rest : List Char) :
    variantName variants (gap.chars ++ (writtenString name ++ rest)) = .ok (a, rest) := by
  simp [variantName, writtenString, skipSpace_gap, skipSpace_cons, isSpace, string_written,
    variant_eq h, place, bind, Except.bind]

theorem unitVariant_written (h : variants.lookup name = some a) (gap : Gap) (rest : List Char) :
    unitVariant variants (gap.chars ++ (writtenString name ++ rest)) = .ok (a, rest) := by
  have hname := variantName_written h .none rest
  simp only [Gap.none, List.nil_append] at hname
  rw [← hname]
  simp [unitVariant, writtenString, skipSpace_gap, skipSpace_cons, isSpace]

/-! ## Nodes -/

/-- The tag of a node is read as a variant. -/
theorem nodeField_tag (h : variants.lookup name = some a) {part : SpelledField}
    (hkey : part.key = "type") (htext : part.content.text = writtenString name)
    (before : List (String × Value)) (rest : List Char) :
    nodeField variants (none, before) part.key (part.tail ++ rest) =
      .ok ((some a, before), rest) := by
  simp [nodeField, hkey, SpelledField.tail, htext, colon_gap, variantName_written h, bind,
    Except.bind]

/-- Every other field of a node is read as a value. -/
theorem nodeField_value {part : SpelledField} (hkey : part.key ≠ "type")
    (hspells : Spells part.content.value part.content.text)
    (hdepth : part.content.value.depth ≤ nodeDepth) (tag : Option α)
    (before : List (String × Value)) {rest : List Char} (hrest : EndsNumber rest) :
    nodeField variants (tag, before) part.key (part.tail ++ rest) =
      .ok ((tag, part.entry :: before), rest) := by
  have hvalue : value nodeDepth (part.content.before.chars ++ (part.content.text ++ rest)) =
      .ok (part.content.value, rest) := by
    rw [value_gap]
    exact hspells.value_eq hdepth hrest
  simp [nodeField, hkey, addField_spelled before hvalue, bind, Except.bind]

/-- A node is read as its tag and its other fields. -/
theorem taggedNode_spelled {type : String} {entries : List (String × Value)} {text : List Char}
    (h : Spells (.object (("type", .string name) :: entries)) text)
    (hname : variants.lookup name = some a) (hkeys : ∀ entry ∈ entries, entry.1 ≠ "type")
    (hdepth : ∀ entry ∈ entries, entry.2.depth ≤ nodeDepth) (rest : List Char) :
    taggedNode type variants (text ++ rest) = .ok ((a, .object entries), rest) := by
  obtain ⟨parts, gap, hparts, hspells, rfl⟩ := h.exists_fields
  obtain ⟨part, parts, rfl, hpart, rfl⟩ := List.map_eq_cons_iff.mp hparts.symm
  obtain ⟨hfirst, hlater⟩ := List.forall_mem_cons.mp hspells
  obtain ⟨hkey, hcontent⟩ := Prod.ext_iff.mp hpart
  rw [show part.content.value = .string name from hcontent] at hfirst
  have hfields : ∀ part ∈ parts, ∀ before rest, EndsNumber rest →
      nodeField variants (some a, before) part.key (part.tail ++ rest) =
        .ok ((some a, part.entry :: before), rest) := by
    intro part hpart before rest hrest
    have hmem := List.mem_map_of_mem (f := SpelledField.entry) hpart
    exact nodeField_value (hkeys _ hmem) (hlater part hpart) (hdepth _ hmem) (some a) before hrest
  have hrun : FieldRun (nodeField variants) (none, []) (part :: parts)
      (some a, (parts.map SpelledField.entry).reverse ++ []) :=
    .cons (fun rest _ => nodeField_tag hname hkey hfirst.eq_writtenString [] rest)
      (.collect hfields [])
  simp only [taggedNode, List.cons_append, skipSpace_cons (c := '\x7b') (by decide),
    hrun.fields_eq gap rest rfl, bind, Except.bind, endObject_brace, List.append_nil,
    List.reverse_reverse]

/-- A node is read back if its fields are understood. -/
theorem node_spelled {type : String} {interpret : α → Value → Except Cause β} {b : β}
    {entries : List (String × Value)} {text : List Char}
    (h : Spells (.object (("type", .string name) :: entries)) text)
    (hname : variants.lookup name = some a) (hkeys : ∀ entry ∈ entries, entry.1 ≠ "type")
    (hdepth : ∀ entry ∈ entries, entry.2.depth ≤ nodeDepth)
    (hinterpret : interpret a (.object entries) = .ok b) (rest : List Char) :
    node type variants interpret (text ++ rest) = .ok (b, rest) := by
  simp only [node, taggedNode_spelled h hname hkeys hdepth, hinterpret, place, bind, Except.bind]

/-! ## Lists of nodes -/

/-- If every text of a node is read as that node, then the parts of a list are read as its nodes. -/
theorem forall₂_readAs {read : List Char → Except Fault (β × List Char)} {toJson : β → Value}
    {nodes : List β} {parts : List SpelledItem}
    (hread : ∀ node ∈ nodes, ∀ text rest, Spells (toJson node) text →
      read (text ++ rest) = .ok (node, rest))
    (hparts : nodes.map toJson = parts.map SpelledItem.value)
    (hspells : ∀ part ∈ parts, Spells part.value part.text) :
    List.Forall₂ (ReadAs read) parts nodes := by
  induction parts generalizing nodes with
  | nil =>
      obtain rfl : nodes = [] := by simpa using hparts
      exact .nil
  | cons part parts ih =>
      obtain ⟨node, nodes, rfl, hnode, hnodes⟩ := List.map_eq_cons_iff.mp hparts
      obtain ⟨hfirst, hlater⟩ := List.forall_mem_cons.mp hspells
      obtain ⟨hreadFirst, hreadLater⟩ := List.forall_mem_cons.mp hread
      refine .cons ⟨hfirst, ?_⟩ (ih hreadLater hnodes hlater)
      intro rest _
      rw [← hnode] at hfirst
      exact hreadFirst part.text rest hfirst

/-- A list of nodes is read back if each node is, whatever its text. -/
theorem nodeList_spelled {read : List Char → Except Fault (β × List Char)} {toJson : β → Value}
    {nodes : List β}
    (hread : ∀ node ∈ nodes, ∀ text rest, Spells (toJson node) text →
      read (text ++ rest) = .ok (node, rest))
    {text : List Char} (h : Spells (.array (nodes.map toJson)) text) (gap : Gap)
    (rest : List Char) :
    nodeList read (gap.chars ++ (text ++ rest)) = .ok (nodes, rest) := by
  obtain ⟨parts, inner, hparts, hspells, rfl⟩ := h.exists_items
  have hitems := items_spelled (forall₂_readAs hread hparts hspells) inner rest rfl
  simp only [nodeList, List.cons_append, skipSpace_gap, skipSpace_cons (c := '[') (by decide),
    hitems, bind, Except.bind, endList_bracket]

end DomTemplate.Json

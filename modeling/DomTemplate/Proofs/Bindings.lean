import Mathlib
import DomTemplate.Proofs.Keys
import DomTemplate.Proofs.Occurrences
import DomTemplate.Proofs.SlotReferences

/-!
# The binding stream, property by property

The binding stream goes through the elements in document order and has one operation for each bound
property, behind the selection of its element.  Keys are numbered while it is written, but a key
keeps its number, so each operation can be told from the final key table.
-/

namespace DomTemplate

namespace Property

/-- The operation of a bound property, by the numbers of its key and of its placeholder. -/
def operation (p : Property) (key input : Nat) : BindOp :=
  match p.kind, p.key with
  | .attr, "class" => .common .className input
  | .attr, _ => .keyed .attr key input
  | .style, _ => .keyed .style key input
  | .value, "textContent" => .common .textContent input
  | .value, "innerHTML" => .common .innerHTML input
  | .value, _ => .keyed .property key input
  | .domValue, "textContent" => .common .textContent input
  | .domValue, "innerHTML" => .common .innerHTML input
  | .domValue, _ => .keyed .liveProperty key input
  | .event, _ => .keyed .event key input
  | .directive, _ => .directive input

/-- The key that a bound property has in the key table: none if it is a common property or a
directive. -/
def tableKey? (p : Property) : Option String :=
  match p.operation 0 0 with
  | .keyed .. => some p.key
  | _ => none

theorem operation_eq (p : Property) (key input : Nat) :
    p.operation key input =
      match Target.of p.kind p.key with
      | .common property => .common property input
      | .keyed binding => .keyed binding key input
      | .directive => .directive input := by
  obtain ⟨kind, name, value⟩ := p
  cases kind <;> simp only [Target.of, operation] <;> split <;> simp_all

theorem tableKey?_eq (p : Property) :
    p.tableKey? =
      match Target.of p.kind p.key with
      | .keyed _ => some p.key
      | _ => none := by
  rw [tableKey?, operation_eq]
  cases Target.of p.kind p.key <;> rfl

end Property

namespace Outline

/-! ## One element -/

/-- The operation of a property by the final key table, if it is bound to one of the inputs. -/
def bindOp? (inputs : Registry Placeholder) (table : List String) (p : Property) : Option BindOp :=
  (p.target?.bind inputs.index?).map (p.operation (table.idxOf p.key))

/-- The key that a property shows to the key table. -/
def boundKey? (inputs : Registry Placeholder) (p : Property) : Option String :=
  (p.target?.bind inputs.index?).bind fun _ => p.tableKey?

theorem keys_bindProperty (keys : Registry String) (p : Property) (input : Nat) :
    (bindProperty keys p input).2 = p.tableKey?.toList.foldl Registry.insert keys := by
  rw [bindProperty, p.tableKey?_eq]
  cases Target.of p.kind p.key <;> rfl

/-- The number of a key is the one that it has in the end. -/
theorem bindProperty_eq {keys : Registry String} {p : Property} {input : Nat} {table : List String}
    (htable : (bindProperty keys p input).2.entries <+: table) :
    (bindProperty keys p input).1 = p.operation (table.idxOf p.key) input := by
  rw [p.operation_eq]
  cases htarget : Target.of p.kind p.key with
  | common property => simp [bindProperty, htarget]
  | directive => simp [bindProperty, htarget]
  | keyed binding =>
      simp only [bindProperty, htarget] at htable ⊢
      obtain ⟨i, hi⟩ := keys.exists_index?_insert p.key
      -- What is entered later comes behind the key, and its first occurrence stays where it is.
      obtain ⟨later, rfl⟩ := htable
      have hentered : p.key ∈ (keys.insert p.key).entries :=
        (keys.mem_insert p.key p.key).mpr (.inr rfl)
      rw [List.idxOf_append_of_mem hentered, Registry.idxOf_of_index? hi, hi, Option.getD_some]

theorem keys_bindProperties (inputs : Registry Placeholder) (keys : Registry String)
    (properties : List Property) :
    (bindProperties inputs keys properties).2 =
      (properties.filterMap (boundKey? inputs)).foldl Registry.insert keys := by
  induction properties generalizing keys with
  | nil => rfl
  | cons p rest ih =>
      rw [bindProperties]
      cases hinput : p.target?.bind inputs.index? with
      | none =>
          have hkey : boundKey? inputs p = none := by simp [boundKey?, hinput]
          rw [List.filterMap_cons_none hkey]
          exact ih keys
      | some input =>
          have hkey : boundKey? inputs p = p.tableKey? := by simp [boundKey?, hinput]
          simp only [ih, keys_bindProperty, ← List.foldl_append]
          rw [List.filterMap_cons, hkey]
          cases p.tableKey? <;> rfl

theorem ops_bindProperties {inputs : Registry Placeholder} {keys : Registry String}
    {properties : List Property} {table : List String}
    (htable : (bindProperties inputs keys properties).2.entries <+: table) :
    (bindProperties inputs keys properties).1 = properties.filterMap (bindOp? inputs table) := by
  induction properties generalizing keys with
  | nil => rfl
  | cons p rest ih =>
      rw [bindProperties] at htable ⊢
      cases hinput : p.target?.bind inputs.index? with
      | none =>
          have hop : bindOp? inputs table p = none := by simp [bindOp?, hinput]
          simp only [hinput] at htable
          rw [List.filterMap_cons_none hop]
          exact ih htable
      | some input =>
          have hop : bindOp? inputs table p = some (p.operation (table.idxOf p.key) input) := by
            simp [bindOp?, hinput]
          simp only [hinput] at htable
          have hown :=
            (prefix_bindProperties inputs (bindProperty keys p input).2 rest).trans htable
          rw [List.filterMap_cons_some hop, ← bindProperty_eq hown, ← ih htable]

/-! ## Whole streams -/

/-- The part of a binding stream that is about one node. -/
def ownBinds (inputs : Registry Placeholder) (table : List String) (outline : Outline) :
    List BindOp :=
  if 0 < outline.bound then
    outline.slot?.toList.map BindOp.setNode ++
      outline.source.properties.filterMap (bindOp? inputs table)
  else []

/-- The keys that one node shows to the key table. -/
def ownKeys (inputs : Registry Placeholder) (outline : Outline) : List String :=
  if 0 < outline.bound then outline.source.properties.filterMap (boundKey? inputs) else []

mutual

theorem keys_bind (inputs : Registry Placeholder) (keys : Registry String) (place : List Nat) :
    ∀ outline : Outline, (bind inputs keys outline).2 =
      ((outline.nodes place).flatMap fun found => found.2.ownKeys inputs).foldl
        Registry.insert keys
  | element tag properties marks following slot children => by
      rw [bind, nodes, List.flatMap_cons, List.foldl_append]
      by_cases hbound : 0 < marks.bound
      · have hown : (element tag properties marks following slot children).ownKeys inputs =
            properties.filterMap (boundKey? inputs) := if_pos hbound
        rw [if_pos hbound, hown, ← keys_bindProperties]
        exact keys_bindAll inputs _ place 0 children
      · have hown : (element tag properties marks following slot children).ownKeys inputs = [] :=
          if_neg hbound
        rw [if_neg hbound, hown]
        exact keys_bindAll inputs keys place 0 children
  | text value following slot => rfl
  | placeholder target => rfl

theorem keys_bindAll (inputs : Registry Placeholder) (keys : Registry String) (place : List Nat)
    (index : Nat) :
    ∀ outlines : List Outline, (bindAll inputs keys outlines).2 =
      ((nodesAll place index outlines).flatMap fun found => found.2.ownKeys inputs).foldl
        Registry.insert keys
  | [] => rfl
  | outline :: rest => by
      rw [bindAll, nodesAll, List.flatMap_append, List.foldl_append,
        ← keys_bind inputs keys (place ++ [index]) outline]
      exact keys_bindAll inputs _ place (index + 1) rest

end

mutual

/-- The binding stream of a node is that of its nodes one after the other. -/
theorem ops_bind {inputs : Registry Placeholder} {table : List String} (place : List Nat) :
    ∀ {outline : Outline} {keys : Registry String},
      (bind inputs keys outline).2.entries <+: table →
      (bind inputs keys outline).1 =
        (outline.nodes place).flatMap fun found => found.2.ownBinds inputs table
  | element tag properties marks following slot children, keys, htable => by
      rw [bind] at htable ⊢
      rw [nodes, List.flatMap_cons]
      by_cases hbound : 0 < marks.bound
      · have hown : (element tag properties marks following slot children).ownBinds inputs table =
            slot.toList.map BindOp.setNode ++ properties.filterMap (bindOp? inputs table) :=
          if_pos hbound
        rw [if_pos hbound] at htable ⊢
        rw [hown, ← ops_bindProperties ((prefix_bindAll inputs _ children).trans htable),
          ← ops_bindAll place 0 htable]
      · have hown : (element tag properties marks following slot children).ownBinds inputs table =
            [] := if_neg hbound
        rw [if_neg hbound] at htable ⊢
        rw [hown, List.nil_append]
        exact ops_bindAll place 0 htable
  | text value following slot, _, _ => rfl
  | placeholder target, _, _ => rfl

theorem ops_bindAll {inputs : Registry Placeholder} {table : List String} (place : List Nat)
    (index : Nat) :
    ∀ {outlines : List Outline} {keys : Registry String},
      (bindAll inputs keys outlines).2.entries <+: table →
      (bindAll inputs keys outlines).1 =
        (nodesAll place index outlines).flatMap fun found => found.2.ownBinds inputs table
  | [], _, _ => rfl
  | outline :: rest, keys, htable => by
      rw [bindAll] at htable ⊢
      have hown := (prefix_bindAll inputs (bind inputs keys outline).2 rest).trans htable
      rw [nodesAll, List.flatMap_append, ← ops_bind (place ++ [index]) hown,
        ← ops_bindAll place (index + 1) htable]

end

theorem ops_bindStream (inputs : Registry Placeholder) (root : Outline) :
    (root.bindStream inputs).1 =
      (root.nodes []).flatMap fun found => found.2.ownBinds inputs (root.bindStream inputs).2 :=
  ops_bind [] (List.prefix_refl (bind inputs .empty root).2.entries)

theorem keys_bindStream (inputs : Registry Placeholder) (root : Outline) :
    (root.bindStream inputs).2 =
      (((root.nodes []).flatMap fun found => found.2.ownKeys inputs).foldl
        Registry.insert .empty).entries :=
  congrArg Registry.entries (keys_bind inputs .empty [] root)

theorem Shows.bound_pos_iff_any {outline : Outline} {node : Node} (h : Shows outline node) :
    0 < outline.bound ↔ node.properties.any Property.isDynamic = true := by
  rw [h.bound_pos_iff]
  cases node <;> simp [Node.properties]

end Outline

/-! ## The stream of a root -/

/-- The operation of a property, with its key and its placeholder named by their numbers in two
lists.  A constant property has none. -/
def Property.bindOp? (keys : List String) (inputs : List Placeholder) (p : Property) :
    Option BindOp :=
  p.target?.map fun target => p.operation (keys.idxOf p.key) (inputs.idxOf target)

namespace Element

/-- The slot of the node at a place. -/
def slotOf (e : Element) (place : List Nat) : Nat :=
  (e.scratch.slotAt? place).getD 0

/-- The operation that makes the element at a place the current one.  The root is so from the
start. -/
def selection (e : Element) (place : List Nat) : List BindOp :=
  if place = [] then [] else [.setNode (e.slotOf place)]

/-- The operations of the bound properties in document order, those of each element behind its
selection. -/
def boundOps (e : Element) (keys : List String) (inputs : List Placeholder) : List BindOp :=
  e.placed.flatMap fun (place, node) =>
    if node.properties.any Property.isDynamic then
      e.selection place ++ node.properties.filterMap (Property.bindOp? keys inputs)
    else []

/-- The node of a root element that the outline at a place is about. -/
theorem shows_of_mem_nodes (e : Element) {place : List Nat} {outline : Outline}
    (h : (place, outline) ∈ e.outline.nodes []) :
    e.outline.at? place = some outline ∧ e.toNode.at? place = some outline.source ∧
      outline.Shows outline.source := by
  obtain ⟨below, rfl, hat⟩ := (Outline.mem_nodes []).mp h
  obtain ⟨node, hnode, hshows⟩ := e.shows_outline.at? hat
  rw [hshows.source_eq]
  exact ⟨hat, hnode, hshows⟩

/-- Below the root an element with bound properties has a slot. -/
theorem slotAt?_of_bound {e : Element} (hfits : e.toNode.FitsWords) {place : List Nat}
    {outline : Outline} (hat : e.outline.at? place = some outline) (hplace : place ≠ [])
    (hbound : 0 < outline.bound) : e.scratch.slotAt? place = some (e.slotOf place) := by
  obtain ⟨parent, index, above, node, rfl, -, hshows, hchild⟩ := e.exists_parent hplace hat
  obtain ⟨slot, hslot⟩ :=
    Option.isSome_iff_exists.mp (hshows.isSome_slot?_of_patched hchild (.inl hbound))
  rw [slotOf, slotAt?_scratch hfits, e.slotAt?_eq_some hat hslot, Option.getD_some]

theorem selection_eq {e : Element} (hfits : e.toNode.FitsWords) {place : List Nat}
    {outline : Outline} (hat : e.outline.at? place = some outline) (hbound : 0 < outline.bound) :
    outline.slot?.toList.map BindOp.setNode = e.selection place := by
  rw [selection]
  split
  · rename_i hroot
    subst hroot
    obtain rfl : e.outline = outline := Option.some.inj hat
    rw [e.slot?_outline]
    rfl
  · rename_i hplace
    have hslot := slotAt?_of_bound hfits hat hplace hbound
    rw [slotAt?_scratch hfits, Outline.slotAt?, hat, Option.bind_some] at hslot
    rw [hslot]
    rfl

/-- A property of a node is bound to one of the inputs, if it is bound at all. -/
theorem target_mem_placeholders (e : Element) {place : List Nat} {node : Node}
    (hat : e.toNode.at? place = some node) {p : Property} (hp : p ∈ node.properties)
    {target : Placeholder} (htarget : p.target? = some target) :
    target ∈ e.toNode.placeholders.entries := by
  have hown : target ∈ node.targets := by
    cases node with
    | element tag properties children =>
        exact List.mem_append_left _ (List.mem_filterMap.mpr ⟨p, hp, htarget⟩)
    | text value => simp [Node.properties] at hp
    | placeholder other => simp [Node.properties] at hp
  exact (e.toNode.mem_placeholders target).mpr (Node.mem_targets_of_at? hat hown)

/-- By the tables of a root element the operations of a node are told by the node itself. -/
theorem bindOp?_eq (e : Element) {place : List Nat} {node : Node}
    (hat : e.toNode.at? place = some node) {p : Property} (hp : p ∈ node.properties)
    (keys : List String) :
    Outline.bindOp? e.toNode.placeholders keys p =
      p.bindOp? keys e.toNode.placeholders.entries := by
  rw [Outline.bindOp?, Property.bindOp?]
  cases htarget : p.target? with
  | none => rfl
  | some target =>
      obtain ⟨input, hinput⟩ := Registry.exists_index? (e.target_mem_placeholders hat hp htarget)
      rw [Option.bind_some, hinput, Option.map_some, Option.map_some,
        Registry.idxOf_of_index? hinput]

theorem boundKey?_eq (e : Element) {place : List Nat} {node : Node}
    (hat : e.toNode.at? place = some node) {p : Property} (hp : p ∈ node.properties) :
    Outline.boundKey? e.toNode.placeholders p = if p.isDynamic then p.tableKey? else none := by
  rw [Outline.boundKey?, Property.isDynamic]
  cases htarget : p.target? with
  | none => rfl
  | some target =>
      obtain ⟨input, hinput⟩ := Registry.exists_index? (e.target_mem_placeholders hat hp htarget)
      rw [Option.bind_some, hinput]
      rfl

/-- The binding stream of a root element is that of its elements in document order. -/
theorem bindStream_eq {e : Element} (hfits : e.toNode.FitsWords) :
    (e.outline.bindStream e.toNode.placeholders).1 =
      e.boundOps (e.outline.bindStream e.toNode.placeholders).2 e.toNode.placeholders.entries := by
  rw [Outline.ops_bindStream, boundOps, ← e.map_nodes_outline, List.flatMap_map]
  refine List.flatMap_congr fun ⟨place, outline⟩ hmem => ?_
  obtain ⟨hat, hnode, hshows⟩ := e.shows_of_mem_nodes hmem
  simp only [Outline.ownBinds, Prod.map, id_eq]
  by_cases hbound : 0 < outline.bound
  · rw [if_pos hbound, if_pos (hshows.bound_pos_iff_any.mp hbound), selection_eq hfits hat hbound]
    congr 1
    exact List.filterMap_congr fun p hp => e.bindOp?_eq hnode hp _
  · rw [if_neg hbound, if_neg (mt hshows.bound_pos_iff_any.mpr hbound)]

/-- The keys of the bound properties that need one, in document order and with repetitions. -/
def boundKeys (e : Element) : List String :=
  e.boundProperties.filterMap fun (_, p) => p.tableKey?

/-- The key table of a root element has the keys of its bound properties by first occurrence. -/
theorem keys_eq (e : Element) :
    (e.outline.bindStream e.toNode.placeholders).2 = e.boundKeys.eraseDups := by
  have hown : ((e.outline.nodes []).flatMap fun found => found.2.ownKeys e.toNode.placeholders) =
      e.boundKeys := by
    rw [boundKeys, boundProperties, ← e.map_nodes_outline, List.flatMap_map,
      List.filterMap_flatMap]
    refine List.flatMap_congr ?_
    rintro ⟨place, outline⟩ hmem
    obtain ⟨-, hnode, hshows⟩ := e.shows_of_mem_nodes hmem
    rw [List.filterMap_map, List.filterMap_filter, Outline.ownKeys]
    by_cases hbound : 0 < outline.bound
    · rw [if_pos hbound]
      exact List.filterMap_congr fun p hp => e.boundKey?_eq hnode hp
    · -- An element without bindings is passed over, and has no bound property to ask for a key.
      have hnone : outline.source.properties.any Property.isDynamic = false :=
        Bool.eq_false_iff.mpr (mt hshows.bound_pos_iff_any.mpr hbound)
      rw [if_neg hbound, eq_comm, List.filterMap_eq_nil_iff]
      exact fun p hp => if_neg (List.any_eq_false.mp hnone p hp)
  rw [Outline.keys_bindStream, hown, Registry.entries_foldl_insert]
  simp [Registry.empty]

theorem nodup_keys (e : Element) : (e.outline.bindStream e.toNode.placeholders).2.Nodup := by
  rw [Outline.keys_bindStream]
  exact Registry.nodup_foldl_insert _ List.nodup_nil

theorem mem_keys (e : Element) {place : List Nat} {p : Property}
    (hmem : (place, p) ∈ e.boundProperties) {key : String} (hkey : p.tableKey? = some key) :
    key ∈ (e.outline.bindStream e.toNode.placeholders).2 := by
  rw [e.keys_eq, List.mem_eraseDups, boundKeys, List.mem_filterMap]
  exact ⟨_, hmem, hkey⟩

end Element

/-- A keyed operation belongs to a property whose key is in the table, and has its number. -/
theorem Property.eq_keyed {keys : List String} {inputs : List Placeholder} {p : Property}
    {binding : Binding} {key input : Nat}
    (h : p.bindOp? keys inputs = some (.keyed binding key input)) :
    p.tableKey? = some p.key ∧ key = keys.idxOf p.key := by
  obtain ⟨target, -, hop⟩ := Option.map_eq_some_iff.mp h
  rw [operation_eq] at hop
  rw [tableKey?_eq]
  cases htarget : Target.of p.kind p.key with
  | common property => simp [htarget] at hop
  | directive => simp [htarget] at hop
  | keyed own =>
      simp only [htarget, BindOp.keyed.injEq] at hop
      exact ⟨rfl, hop.2.1.symm⟩

/-- The binding stream of a block has the elements with bound properties in document order, each
selected by its slot unless it is the root and followed by one operation for each of its bound
properties.  The key table has the keys of the operations that need one by first occurrence, and
every operation finds its key there. -/
theorem binds_follow_properties (e : Element) (dialect : Dialect) (block : Block)
    (hfits : e.toNode.FitsWords) (hblock : e.compile dialect = .ok block) :
    block.binds = e.boundOps block.keys block.inputs ∧
      (∀ place node, (place, node) ∈ e.placed → node.properties.any Property.isDynamic = true →
        place ≠ [] → e.scratch.slotAt? place = some (e.slotOf place)) ∧
      block.keys.Nodup ∧
      block.keys = e.boundKeys.eraseDups ∧
      ∀ place p binding key input, (place, p) ∈ e.boundProperties →
        p.bindOp? block.keys block.inputs = some (.keyed binding key input) →
        block.keys[key]? = some p.key := by
  have hcompiled := Element.compilesTo_of_compile hblock
  rw [hcompiled.binds hfits, hcompiled.keys hfits, hcompiled.inputs]
  refine ⟨Element.bindStream_eq hfits, ?_, e.nodup_keys, e.keys_eq, ?_⟩
  · intro place node hmem hdynamic hplace
    rw [← e.map_nodes_outline, List.mem_map] at hmem
    obtain ⟨⟨_, outline⟩, hmem, heq⟩ := hmem
    obtain ⟨rfl, rfl⟩ := Prod.mk.inj heq
    obtain ⟨hat, -, hshows⟩ := e.shows_of_mem_nodes hmem
    exact Element.slotAt?_of_bound hfits hat hplace (hshows.bound_pos_iff_any.mpr hdynamic)
  · intro place p binding key input hmem hop
    obtain ⟨hkey, rfl⟩ := Property.eq_keyed hop
    exact List.getElem?_idxOf (e.mem_keys hmem hkey)

/-- A form whose elements share a key, next to common properties, a directive and constants. -/
def Element.form : Element where
  tag := "form"
  properties := [⟨.attr, "class", .bound ⟨5⟩⟩, ⟨.attr, "id", .string "f"⟩,
    ⟨.attr, "title", .bound ⟨8⟩⟩]
  children := [.element "label" [⟨.attr, "for", .string "i"⟩] [.text "name"],
    .element "input" [⟨.domValue, "value", .bound ⟨5⟩⟩, ⟨.event, "title", .bound ⟨2⟩⟩,
      ⟨.directive, "", .bound ⟨8⟩⟩] [],
    .element "p" [⟨.value, "textContent", .bound ⟨2⟩⟩, ⟨.style, "class", .bound ⟨5⟩⟩] []]

theorem binds_follow_form :
    ∃ block, Element.form.compile .html = .ok block ∧ block.keys.Nodup ∧
      block.keys = ["title", "value", "class"] ∧
      block.binds = [.common .className 0, .keyed .attr 0 1, .setNode 1, .keyed .liveProperty 1 0,
        .keyed .event 0 2, .directive 1, .setNode 2, .common .textContent 2,
        .keyed .style 2 0] := by
  have hform := binds_follow_properties Element.form .html _ ⟨by decide, by decide⟩ rfl
  exact ⟨_, rfl, hform.2.2.1, hform.2.2.2.1.trans (by decide), hform.1.trans (by decide)⟩

theorem Element.boundOps_heavy {count : Nat} (hpos : 0 < count) (keys : List String)
    (inputs : List Placeholder) :
    (heavy count).boundOps keys inputs =
      List.replicate count (.directive (inputs.idxOf ⟨0⟩)) := by
  have hplaced : (heavy count).placed = [([], (heavy count).toNode)] := rfl
  have hdynamic : (heavy count).toNode.properties.any Property.isDynamic = true :=
    List.any_eq_true.mpr
      ⟨.action, List.mem_replicate.mpr ⟨Nat.ne_of_gt hpos, rfl⟩, rfl⟩
  have hops : (heavy count).toNode.properties.filterMap (Property.bindOp? keys inputs) =
      List.replicate count (.directive (inputs.idxOf ⟨0⟩)) :=
    List.filterMap_replicate_of_some rfl
  rw [boundOps, hplaced]
  simp only [List.flatMap_cons, List.flatMap_nil, List.append_nil, hdynamic, if_true, hops]
  rfl

/-- None of 2 ^ 32 directives on one element has an operation. -/
theorem binds_of_heavy_missing :
    ∃ block, (Element.heavy (2 ^ 32)).compile .html = .ok block ∧ block.binds = [] ∧
      block.binds ≠ (Element.heavy (2 ^ 32)).boundOps block.keys block.inputs := by
  have hheavy : ∀ count, 0 < count → UInt32.ofNat count = 0 →
      ∃ block, (Element.heavy count).compile .html = .ok block ∧ block.binds = [] ∧
        block.binds ≠ (Element.heavy count).boundOps block.keys block.inputs := by
    intro count hpos hwrap
    have hbinds : ((Element.heavy count).blockOf .html (.tag "div")).binds = [] := by
      rw [Element.blockOf, (Element.streams_heavy hwrap _).1]
    refine ⟨_, Element.compile_heavy hpos hwrap, hbinds, ?_⟩
    rw [hbinds, Element.boundOps_heavy hpos, ne_comm]
    exact mt (List.replicate_eq_nil_iff _).mp (Nat.ne_of_gt hpos)
  exact hheavy _ (by decide) (by decide)

end DomTemplate

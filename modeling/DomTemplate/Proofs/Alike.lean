import Mathlib
import DomTemplate.Proofs.Accepted

/-!
# Trees that are wired alike

Bindings and insertions depend on very little of a tree: where its elements, texts and placeholders
stand, which properties are bound, and which placeholders are the same.  Two trees that agree in
this are wired alike, and each pass keeps them so: their scratch trees are wired alike, with and
without slots, and then their streams are the same.  Counters may wrap around on the way, since they
wrap around in both trees at the same point.

Tags, texts and constant properties may differ.  The placeholders of the second tree may have other
names, and a text of it may stand for several neighbouring texts of the first.  Only the walk can
tell such texts apart, since it has a step for each of them.
-/

namespace DomTemplate

namespace Property

/-- The property, bound to the placeholder of another name if it is bound. -/
def retarget (f : Placeholder → Placeholder) (p : Property) : Property :=
  match p.value with
  | .bound target => { p with value := .bound (f target) }
  | _ => p

variable (f : Placeholder → Placeholder) (p : Property)

theorem kind_retarget : (p.retarget f).kind = p.kind := by
  obtain ⟨kind, key, value⟩ := p
  cases value <;> rfl

theorem key_retarget : (p.retarget f).key = p.key := by
  obtain ⟨kind, key, value⟩ := p
  cases value <;> rfl

theorem target?_retarget : (p.retarget f).target? = p.target?.map f := by
  obtain ⟨kind, key, value⟩ := p
  cases value <;> rfl

theorem isDynamic_retarget : (p.retarget f).isDynamic = p.isDynamic := by
  rw [isDynamic, target?_retarget, Option.isSome_map, isDynamic]

theorem retarget_id : retarget id = id := by
  funext ⟨kind, key, value⟩
  cases value <;> rfl

/-- Two lists of properties are wired alike if they have the same bound properties in the same
order, up to the names of placeholders. -/
def Alike (f : Placeholder → Placeholder) (properties others : List Property) : Prop :=
  others.filter isDynamic = (properties.filter isDynamic).map (retarget f)

theorem alike_retarget (properties : List Property) :
    Alike f properties (properties.map (retarget f)) := by
  have hdynamic : isDynamic ∘ retarget f = isDynamic := funext (isDynamic_retarget f)
  rw [Alike, List.filter_map, hdynamic]

theorem alike_self (properties : List Property) : Alike id properties properties := by
  rw [Alike, retarget_id, List.map_id]

/-- Only bound properties have a placeholder. -/
theorem filterMap_target? (properties : List Property) :
    (properties.filter isDynamic).filterMap target? = properties.filterMap target? := by
  rw [List.filterMap_filter]
  congr 1
  funext p
  cases htarget : p.target? <;> simp [isDynamic, htarget]

namespace Alike

variable {f : Placeholder → Placeholder} {properties others : List Property}

theorem countP_eq (h : Alike f properties others) :
    others.countP isDynamic = properties.countP isDynamic := by
  rw [Alike] at h
  rw [List.countP_eq_length_filter, List.countP_eq_length_filter, h, List.length_map]

theorem targets_eq (h : Alike f properties others) :
    others.filterMap target? = (properties.filterMap target?).map f := by
  have htarget : target? ∘ retarget f = fun p => p.target?.map f := funext (target?_retarget f)
  rw [Alike] at h
  rw [← filterMap_target? others, ← filterMap_target? properties, h, List.filterMap_map, htarget,
    List.map_filterMap]

end Alike

end Property

/-! ## Bindings of one element -/

/-- Whether placeholders have the same numbers under both names. -/
def SameNumbers (f : Placeholder → Placeholder) (inputs inputs' : Registry Placeholder)
    (targets : List Placeholder) : Prop :=
  ∀ target ∈ targets, inputs'.word? (f target) = inputs.word? target

section Numbers

variable {f : Placeholder → Placeholder} {inputs inputs' : Registry Placeholder}

theorem sameNumbers_append {targets more : List Placeholder} :
    SameNumbers f inputs inputs' (targets ++ more) ↔
      SameNumbers f inputs inputs' targets ∧ SameNumbers f inputs inputs' more :=
  List.forall_mem_append

theorem sameNumbers_cons {target : Placeholder} {targets : List Placeholder} :
    SameNumbers f inputs inputs' (target :: targets) ↔
      inputs'.word? (f target) = inputs.word? target ∧ SameNumbers f inputs inputs' targets :=
  List.forall_mem_cons

end Numbers

namespace Scratch

theorem bindProperty_retarget (f : Placeholder → Placeholder) (keys : Registry String)
    (p : Property) (input : UInt32) :
    bindProperty keys (p.retarget f) input = bindProperty keys p input := by
  rw [bindProperty, bindProperty, p.kind_retarget, p.key_retarget]

theorem bindProperties_cons_of_not_dynamic {p : Property} (hp : p.isDynamic = false)
    (inputs : Registry Placeholder) (keys : Registry String) (rest : List Property) :
    bindProperties inputs keys (p :: rest) = bindProperties inputs keys rest := by
  have htarget : p.target? = none := by
    rw [Property.isDynamic, Option.isSome_eq_false_iff] at hp
    exact Option.isNone_iff_eq_none.mp hp
  rw [bindProperties, htarget]
  rfl

/-- Constant properties have no bindings. -/
theorem bindProperties_filter (inputs : Registry Placeholder) (keys : Registry String)
    (properties : List Property) :
    bindProperties inputs keys (properties.filter Property.isDynamic) =
      bindProperties inputs keys properties := by
  induction properties generalizing keys with
  | nil => rfl
  | cons p rest ih =>
      cases hp : p.isDynamic with
      | false =>
          rw [List.filter_cons_of_neg (by simp [hp]), ih,
            bindProperties_cons_of_not_dynamic hp]
      | true => simp only [List.filter_cons_of_pos hp, bindProperties, ih]

/-- Bindings are told by the numbers of placeholders, whatever their names are. -/
theorem bindProperties_retarget {f : Placeholder → Placeholder}
    {inputs inputs' : Registry Placeholder} {properties : List Property}
    (hnumbers : SameNumbers f inputs inputs' (properties.filterMap Property.target?))
    (keys : Registry String) :
    bindProperties inputs' keys (properties.map (Property.retarget f)) =
      bindProperties inputs keys properties := by
  induction properties generalizing keys with
  | nil => rfl
  | cons p rest ih =>
      cases htarget : p.target? with
      | none =>
          rw [List.filterMap_cons_none htarget] at hnumbers
          simp only [List.map_cons, bindProperties, p.target?_retarget, htarget, Option.map_none,
            Option.bind_none, ih hnumbers]
      | some target =>
          rw [List.filterMap_cons_some htarget] at hnumbers
          obtain ⟨hown, hrest⟩ := sameNumbers_cons.mp hnumbers
          simp only [List.map_cons, bindProperties, p.target?_retarget, htarget, Option.map_some,
            Option.bind_some, hown, bindProperty_retarget, ih hrest]

end Scratch

theorem Property.Alike.bindProperties_eq {f : Placeholder → Placeholder}
    {inputs inputs' : Registry Placeholder} {properties others : List Property}
    (h : Property.Alike f properties others)
    (hnumbers : SameNumbers f inputs inputs' (properties.filterMap Property.target?))
    (keys : Registry String) :
    Scratch.bindProperties inputs' keys others = Scratch.bindProperties inputs keys properties := by
  rw [Property.Alike] at h
  rw [← Property.filterMap_target?] at hnumbers
  rw [← Scratch.bindProperties_filter, h, Scratch.bindProperties_retarget hnumbers,
    Scratch.bindProperties_filter]

/-! ## Scratch trees -/

namespace Scratch

/-- Two lists of scratch siblings are wired alike for two numberings of inputs: the notes are the
same and the streams will find the same in them.  If `merged`, two neighbouring texts of the first
may be one text of the second, with the slot of the left one and the flags of the right one. -/
inductive Alike (inputs inputs' : Registry Placeholder) (merged : Bool) :
    List Scratch → List Scratch → Prop where
  | nil : Alike inputs inputs' merged [] []
  | element {tag tag' : String} {properties properties' : List Property} {bound mounts : UInt32}
      {flags : UInt8} {slot : UInt32} {children children' rest rest' : List Scratch}
      (hproperties : ∀ keys,
        bindProperties inputs' keys properties' = bindProperties inputs keys properties)
      (hchildren : Alike inputs inputs' merged children children')
      (hrest : Alike inputs inputs' merged rest rest') :
      Alike inputs inputs' merged (element tag properties bound mounts flags slot children :: rest)
        (element tag' properties' bound mounts flags slot children' :: rest')
  | text {value value' : String} {flags : UInt8} {slot : UInt32} {rest rest' : List Scratch}
      (hrest : Alike inputs inputs' merged rest rest') :
      Alike inputs inputs' merged (text value flags slot :: rest) (text value' flags slot :: rest')
  | merge {first second value : String} {flags flags' : UInt8} {slot slot' : UInt32}
      {rest others : List Scratch} (hmerged : merged = true)
      (h : Alike inputs inputs' merged (text value flags slot :: rest) others) :
      Alike inputs inputs' merged (text first flags' slot :: text second flags slot' :: rest) others
  | placeholder {target target' : Placeholder} {flags : UInt8} {rest rest' : List Scratch}
      (htarget : inputs'.word? target' = inputs.word? target)
      (hrest : Alike inputs inputs' merged rest rest') :
      Alike inputs inputs' merged (placeholder target flags :: rest)
        (placeholder target' flags :: rest')

namespace Alike

variable {inputs inputs' : Registry Placeholder} {merged : Bool} {nodes others : List Scratch}

/-- Numbering gives out the same slots, to the same nodes. -/
theorem numberAll (h : Alike inputs inputs' merged nodes others) (behind : Bool) (next : UInt32) :
    (Scratch.numberAll behind next others).2 = (Scratch.numberAll behind next nodes).2 ∧
      Alike inputs inputs' merged (Scratch.numberAll behind next nodes).1
        (Scratch.numberAll behind next others).1 := by
  induction h generalizing behind next with
  | nil => exact ⟨rfl, .nil⟩
  | @element tag tag' properties properties' bound mounts flags slot children children' rest rest'
      hproperties hchildren hrest ihchildren ihrest =>
      simp only [Scratch.numberAll, number, isPlaceholder]
      split
      · obtain ⟨hfree, hinner⟩ := ihchildren false (next + 1)
        obtain ⟨hlast, hmore⟩ := ihrest false (Scratch.numberAll false (next + 1) children).2
        rw [hfree]
        exact ⟨hlast, .element hproperties hinner hmore⟩
      · obtain ⟨hfree, hinner⟩ := ihchildren false next
        obtain ⟨hlast, hmore⟩ := ihrest false (Scratch.numberAll false next children).2
        rw [hfree]
        exact ⟨hlast, .element hproperties hinner hmore⟩
  | text hrest ih =>
      simp only [Scratch.numberAll, number, isPlaceholder]
      split
      · obtain ⟨hlast, hmore⟩ := ih false (next + 1)
        exact ⟨hlast, .text hmore⟩
      · obtain ⟨hlast, hmore⟩ := ih false next
        exact ⟨hlast, .text hmore⟩
  | merge hmerged h ih =>
      -- The second text is not right behind a placeholder, so only the first can take a slot.
      obtain ⟨hlast, hmore⟩ := ih behind next
      cases behind with
      | false => exact ⟨hlast, .merge hmerged hmore⟩
      | true => exact ⟨hlast, .merge hmerged hmore⟩
  | placeholder htarget hrest ih =>
      obtain ⟨hlast, hmore⟩ := ih true next
      exact ⟨hlast, .placeholder htarget hmore⟩

/-- Both lists have the same bindings. -/
theorem bindAll_eq (h : Alike inputs inputs' merged nodes others) (keys : Registry String) :
    bindAll inputs' keys others = bindAll inputs keys nodes := by
  induction h generalizing keys with
  | nil => rfl
  | element hproperties hchildren hrest ihchildren ihrest =>
      simp only [bindAll, bind, hproperties, ihchildren, ihrest]
  | text hrest ih => simp only [bindAll, bind, ih]
  | merge hmerged h ih =>
      rw [ih]
      simp [bindAll, bind]
  | placeholder htarget hrest ih => simp only [bindAll, bind, ih]

/-- The first siblings have the same slot. -/
theorem selectNext_eq (h : Alike inputs inputs' merged nodes others) :
    selectNext others = selectNext nodes := by
  induction h with
  | merge hmerged h ih => exact ih
  | _ => rfl

/-- Both lists have the same insertions between their nodes. -/
theorem mountChildren_eq (h : Alike inputs inputs' merged nodes others) :
    mountChildren inputs' others = mountChildren inputs nodes := by
  induction h with
  | nil => rfl
  | element hproperties hchildren hrest ihchildren ihrest => exact ihrest
  | text hrest ih => exact ih
  | merge hmerged h ih => exact ih
  | placeholder htarget hrest ih =>
      simp only [mountChildren, htarget, hrest.selectNext_eq, ih]

/-- Both lists have the same insertions below their nodes. -/
theorem mountAll_eq (h : Alike inputs inputs' merged nodes others) :
    mountAll inputs' others = mountAll inputs nodes := by
  induction h with
  | nil => rfl
  | element hproperties hchildren hrest ihchildren ihrest =>
      simp only [mountAll, mount, hchildren.mountChildren_eq, ihchildren, ihrest]
  | text hrest ih => simp only [mountAll, mount, ih]
  | merge hmerged h ih =>
      rw [ih]
      simp [mountAll, mount]
  | placeholder htarget hrest ih => simp only [mountAll, mount, ih]

/-- The walk takes the same steps in both lists, unless texts have been merged. -/
theorem walkAll_eq (h : Alike inputs inputs' false nodes others) (afterText behind : Bool) :
    walkAll afterText behind others = walkAll afterText behind nodes := by
  induction h generalizing afterText behind with
  | nil => rfl
  | element hproperties hchildren hrest ihchildren ihrest =>
      simp only [walkAll_element, ihchildren, ihrest]
      rfl
  | text hrest ih =>
      simp only [walkAll, ih]
      rfl
  | merge hmerged h ih =>
      -- The walk has a step for each of two texts, so nothing of the kind holds here.
      cases hmerged
  | placeholder htarget hrest ih => exact ih afterText true

end Alike

end Scratch

/-! ## Trees -/

namespace Node

/-- Induction on siblings, which goes down to children and on to the siblings that follow. -/
@[elab_as_elim]
theorem siblings_induction {motive : List Node → Prop} (nil : motive [])
    (element : ∀ tag properties children rest, motive children → motive rest →
      motive (element tag properties children :: rest))
    (text : ∀ value rest, motive rest → motive (text value :: rest))
    (placeholder : ∀ target rest, motive rest → motive (placeholder target :: rest))
    (nodes : List Node) : motive nodes :=
  @Node.rec_1 (fun node => ∀ rest, motive rest → motive (node :: rest)) motive
    (fun tag properties children hchildren rest hrest =>
      element tag properties children rest hchildren hrest)
    text placeholder nil (fun _ rest hnode hrest => hnode rest hrest) nodes

/-- Two lists of siblings are wired alike along a renaming of placeholders.  If `merged`,
neighbouring texts of the first may be one text of the second. -/
inductive Alike (f : Placeholder → Placeholder) (merged : Bool) : List Node → List Node → Prop where
  | nil : Alike f merged [] []
  | element {tag tag' : String} {properties properties' : List Property}
      {children children' rest rest' : List Node}
      (hproperties : Property.Alike f properties properties')
      (hchildren : Alike f merged children children') (hrest : Alike f merged rest rest') :
      Alike f merged (element tag properties children :: rest)
        (element tag' properties' children' :: rest')
  | text {value value' : String} {rest rest' : List Node} (hrest : Alike f merged rest rest') :
      Alike f merged (text value :: rest) (text value' :: rest')
  | merge {first second value : String} {rest others : List Node} (hmerged : merged = true)
      (h : Alike f merged (text value :: rest) others) :
      Alike f merged (text first :: text second :: rest) others
  | placeholder {target : Placeholder} {rest rest' : List Node}
      (hrest : Alike f merged rest rest') :
      Alike f merged (placeholder target :: rest) (placeholder (f target) :: rest')

/-- Passes over siblings that are wired alike end in the same state, with scratch trees that are
wired alike. -/
structure ScansAlike (inputs inputs' : Registry Placeholder) (merged : Bool)
    (scan other : Scratch.Scan) : Prop where
  flags : other.flags = scan.flags
  siblings : other.siblings = scan.siblings
  mounts : other.mounts = scan.mounts
  children : Scratch.Alike inputs inputs' merged scan.children other.children

namespace Alike

variable {f : Placeholder → Placeholder} {merged : Bool} {nodes others : List Node}

theorem targetsAll_eq (h : Alike f merged nodes others) :
    targetsAll others = (targetsAll nodes).map f := by
  induction h with
  | nil => rfl
  | element hproperties hchildren hrest ihchildren ihrest =>
      simp only [targetsAll, targets, hproperties.targets_eq, ihchildren, ihrest, List.map_append]
  | text hrest ih => exact ih
  | merge hmerged h ih => exact ih
  | placeholder hrest ih => simp [targetsAll, targets, ih]

/-- The scratch trees of trees that are wired alike are so, if placeholders have the same numbers
under both names. -/
theorem scansAlike {inputs inputs' : Registry Placeholder} (h : Alike f merged nodes others)
    (hnumbers : SameNumbers f inputs inputs' (targetsAll nodes)) (flags : UInt8) :
    ScansAlike inputs inputs' merged (Scratch.scanChildren flags nodes)
      (Scratch.scanChildren flags others) := by
  induction h generalizing flags with
  | nil => exact ⟨rfl, rfl, rfl, .nil⟩
  | @element tag tag' properties properties' children children' rest rest' hproperties hchildren
      hrest ihchildren ihrest =>
      simp only [targetsAll, targets, sameNumbers_append] at hnumbers
      obtain ⟨⟨hown, hinner⟩, hmore⟩ := hnumbers
      have hscan := ihrest hmore flags
      have hbelow := ihchildren hinner (Scratch.scanChildren flags rest).siblings
      have hbound := hproperties.countP_eq
      simp only [Scratch.scanChildren, Scratch.ofNode, hscan.flags, hscan.siblings, hscan.mounts,
        hbelow.flags, hbelow.mounts, hbound]
      exact {
        flags := rfl
        siblings := rfl
        mounts := rfl
        children :=
          .element (hproperties.bindProperties_eq hown) hbelow.children hscan.children }
  | text hrest ih =>
      have hscan := ih hnumbers flags
      simp only [Scratch.scanChildren, Scratch.ofNode, hscan.siblings]
      exact ⟨hscan.flags, rfl, hscan.mounts, .text hscan.children⟩
  | merge hmerged h ih =>
      -- Two texts are as solid as one, and none of them is dynamic.
      have hscan := ih hnumbers flags
      simp only [Scratch.scanChildren, Scratch.ofNode] at hscan ⊢
      refine ⟨hscan.flags, ?_, hscan.mounts, .merge hmerged hscan.children⟩
      rw [hscan.siblings, UInt8.or_assoc, UInt8.or_self]
  | placeholder hrest ih =>
      obtain ⟨hown, hmore⟩ := sameNumbers_cons.mp hnumbers
      have hscan := ih hmore flags
      simp only [Scratch.scanChildren, Scratch.ofNode, hscan.siblings, hscan.mounts]
      exact ⟨hscan.flags, rfl, rfl, .placeholder hown hscan.children⟩

end Alike

end Node

/-! ## Root elements -/

namespace Element

/-- Two root elements are wired alike along a renaming of placeholders. -/
structure Alike (f : Placeholder → Placeholder) (merged : Bool) (e other : Element) : Prop where
  properties : Property.Alike f e.properties other.properties
  children : Node.Alike f merged e.children other.children

namespace Alike

variable {f : Placeholder → Placeholder} {merged : Bool} {e other : Element}

theorem targets_eq (h : Alike f merged e other) :
    other.toNode.targets = e.toNode.targets.map f := by
  simp only [toNode, Node.targets, h.properties.targets_eq, h.children.targetsAll_eq,
    List.map_append]

section Injective

variable (h : Alike f merged e other) (hinj : Set.InjOn f {target | target ∈ e.toNode.targets})

include h hinj

/-- The inputs are the same but for their names. -/
theorem placeholders_eq : other.toNode.placeholders = e.toNode.placeholders.map f := by
  have hseen : Set.InjOn f {target |
      target ∈ (Registry.empty : Registry Placeholder).entries ∨ target ∈ e.toNode.targets} :=
    hinj.mono fun target htarget => htarget.resolve_left (List.not_mem_nil)
  rw [Node.placeholders, Node.placeholders, Node.register_eq, Node.register_eq, h.targets_eq]
  exact Registry.map_foldl_insert hseen

theorem size_placeholders_eq : other.toNode.placeholders.size = e.toNode.placeholders.size := by
  rw [h.placeholders_eq hinj]
  exact List.length_map f

/-- Placeholders have the same numbers under both names. -/
theorem sameNumbers :
    SameNumbers f e.toNode.placeholders other.toNode.placeholders e.toNode.targets := by
  have hentries : Set.InjOn f {target | target ∈ e.toNode.placeholders.entries} :=
    hinj.mono fun target => (e.toNode.mem_placeholders target).mp
  intro target htarget
  rw [h.placeholders_eq hinj, Registry.word?, Registry.word?,
    Registry.index?_map hentries ((e.toNode.mem_placeholders target).mpr htarget)]

/-- The scratch trees are wired alike, and as many slots have been given out in them. -/
theorem scratch_alike :
    Scratch.Alike e.toNode.placeholders other.toNode.placeholders merged [e.scratch]
        [other.scratch] ∧ other.slotsGiven = e.slotsGiven := by
  obtain ⟨hown, hinner⟩ := sameNumbers_append.mp (h.sameNumbers hinj)
  have hscan := h.children.scansAlike hinner 0
  obtain ⟨hfree, hnumbered⟩ := hscan.children.numberAll false 1
  have hbound := h.properties.countP_eq
  constructor
  · simp only [scratch, toNode, Scratch.ofNode, Scratch.numberRoot, hscan.flags, hscan.mounts,
      hbound]
    exact .element (h.properties.bindProperties_eq hown) hnumbered .nil
  · simp only [slotsGiven, toNode, Scratch.ofNode, Scratch.numberRoot, hfree]

theorem slotsGiven_eq : other.slotsGiven = e.slotsGiven :=
  (h.scratch_alike hinj).2

/-- The binding streams and the keys that they name are the same. -/
theorem bindStream_eq :
    other.scratch.bindStream other.toNode.placeholders =
      e.scratch.bindStream e.toNode.placeholders := by
  have hscratch := (h.scratch_alike hinj).1
  generalize e.scratch = root at hscratch ⊢
  generalize other.scratch = root' at hscratch ⊢
  cases hscratch with
  | element hproperties hchildren hrest =>
      simp only [Scratch.bindStream, Scratch.bind, hproperties, hchildren.bindAll_eq]
  | text hrest => rfl
  | placeholder htarget hrest => rfl

/-- The mounting streams are the same. -/
theorem mountStream_eq :
    other.scratch.mountStream other.toNode.placeholders =
      e.scratch.mountStream e.toNode.placeholders := by
  have hscratch := (h.scratch_alike hinj).1
  generalize e.scratch = root at hscratch ⊢
  generalize other.scratch = root' at hscratch ⊢
  cases hscratch with
  | element hproperties hchildren hrest =>
      simp only [Scratch.mountStream, Scratch.mount, hchildren.mountChildren_eq,
        hchildren.mountAll_eq]
  | text hrest => rfl
  | placeholder htarget hrest => rfl

theorem mountCount_eq : other.mountCount = e.mountCount := by
  rw [mountCount, mountCount, h.mountStream_eq hinj]

/-- Of root elements that are wired alike and have the same tag, the same is refused. -/
theorem checked_eq (htag : other.tag = e.tag) (shell : Except Refusal Shell) :
    other.checked shell = e.checked shell := by
  simp only [checked, require, htag, h.size_placeholders_eq hinj, h.slotsGiven_eq hinj,
    h.mountCount_eq hinj]

end Injective

/-- The walk streams are the same, unless texts have been merged. -/
theorem walk_eq (h : Alike f false e other)
    (hinj : Set.InjOn f {target | target ∈ e.toNode.targets}) :
    other.scratch.walk = e.scratch.walk := by
  have hscratch := (h.scratch_alike hinj).1
  generalize e.scratch = root at hscratch ⊢
  generalize other.scratch = root' at hscratch ⊢
  cases hscratch with
  | element hproperties hchildren hrest => exact hchildren.walkAll_eq false false
  | text hrest => rfl
  | placeholder htarget hrest => rfl

end Alike

end Element

end DomTemplate

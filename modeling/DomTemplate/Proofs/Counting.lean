import Mathlib
import DomTemplate.Proofs.Slots
import DomTemplate.Scratch.Slots

/-!
# Trees that words can count

A scratch tree counts with words of 32 bits, packs what it knows of a node into one byte and has
slot 0 for nodes without a slot.  An outline says the same with numbers that have no bound.  Every
scratch tree can be read as an outline, and as long as no counter wraps around, reading commutes
with each pass: the outline of a tree with fewer than 2 ^ 32 nodes and fewer than 2 ^ 32 properties
is what its scratch tree says.
-/

namespace DomTemplate

/-! ## Sizes -/

namespace Node

mutual

/-- The number of nodes at and below a node. -/
def nodeCount : Node → Nat
  | element _ _ children => nodeCountAll children + 1
  | text _ => 1
  | placeholder _ => 1

def nodeCountAll : List Node → Nat
  | [] => 0
  | node :: rest => nodeCount node + nodeCountAll rest

end

mutual

/-- The number of properties at and below a node. -/
def propertyCount : Node → Nat
  | element _ properties children => properties.length + propertyCountAll children
  | text _ => 0
  | placeholder _ => 0

def propertyCountAll : List Node → Nat
  | [] => 0
  | node :: rest => propertyCount node + propertyCountAll rest

end

/-- No counter of a word wraps around on siblings with so few nodes and properties. -/
structure AllFitWords (siblings : List Node) : Prop where
  nodes : nodeCountAll siblings < 2 ^ 32
  properties : propertyCountAll siblings < 2 ^ 32

/-- No counter of a word wraps around on a tree with so few nodes and properties. -/
structure FitsWords (node : Node) : Prop where
  nodes : node.nodeCount < 2 ^ 32
  properties : node.propertyCount < 2 ^ 32

theorem FitsWords.children {tag : String} {properties : List Property} {children : List Node}
    (h : (element tag properties children).FitsWords) :
    AllFitWords children ∧ properties.length < 2 ^ 32 := by
  have hnodes := h.nodes
  have hproperties := h.properties
  rw [nodeCount] at hnodes
  rw [propertyCount] at hproperties
  exact ⟨⟨by omega, by omega⟩, by omega⟩

theorem AllFitWords.cons {node : Node} {rest : List Node} (h : AllFitWords (node :: rest)) :
    node.FitsWords ∧ AllFitWords rest := by
  have hnodes := h.nodes
  have hproperties := h.properties
  rw [nodeCountAll] at hnodes
  rw [propertyCountAll] at hproperties
  exact ⟨⟨by omega, by omega⟩, ⟨by omega, by omega⟩⟩

theorem AllFitWords.nil : AllFitWords [] :=
  ⟨by decide, by decide⟩

theorem FitsWords.allFitWords_children {node : Node} (h : node.FitsWords) :
    AllFitWords node.children := by
  cases node with
  | element tag properties children => exact h.children.1
  | text value => exact AllFitWords.nil
  | placeholder target => exact AllFitWords.nil

theorem AllFitWords.getElem? {nodes : List Node} (h : AllFitWords nodes) {index : Nat}
    {node : Node} (hnode : nodes[index]? = some node) :
    node.FitsWords ∧ AllFitWords (nodes.drop (index + 1)) := by
  induction nodes generalizing index with
  | nil => exact absurd hnode (by simp)
  | cons first rest ih =>
      cases index with
      | zero =>
          obtain rfl : first = node := Option.some.inj hnode
          exact h.cons
      | succ index => exact ih h.cons.2 hnode

theorem nodeCount_pos (node : Node) : 0 < node.nodeCount := by
  cases node <;> simp [nodeCount]

theorem length_le_nodeCountAll (nodes : List Node) : nodes.length ≤ nodeCountAll nodes := by
  induction nodes with
  | nil => exact Nat.le_refl 0
  | cons node rest ih =>
      have hpos := node.nodeCount_pos
      rw [List.length_cons, nodeCountAll]
      omega

/-- So few siblings have few placeholders among them. -/
theorem AllFitWords.countP_lt {nodes : List Node} (h : AllFitWords nodes) (p : Node → Bool) :
    nodes.countP p < 2 ^ 32 := by
  have hcount := List.countP_le_length (p := p) (l := nodes)
  have hlength := length_le_nodeCountAll nodes
  have hnodes := h.nodes
  omega

end Node

/-! ## Flags -/

namespace Flag

theorem isIn_or_mask (flag other : Flag) (flags : UInt8) :
    flag.isIn (flags ||| other.mask) = (flag.isIn flags || decide (flag = other)) := by
  have hbytes : ∀ n : Fin 256, flag.isIn (UInt8.ofFin n ||| other.mask) =
      (flag.isIn (UInt8.ofFin n) || decide (flag = other)) := by
    cases flag <;> cases other <;> decide +kernel
  exact hbytes flags.toFin

theorem isIn_setIf (flag other : Flag) (condition : Bool) (flags : UInt8) :
    flag.isIn (other.setIf condition flags) =
      (flag.isIn flags || (condition && decide (flag = other))) := by
  cases condition with
  | false => simp [setIf]
  | true => simp [setIf, isIn_or_mask]

theorem isIn_zero (flag : Flag) : flag.isIn 0 = false := by
  cases flag <;> rfl

end Flag

namespace Scratch

/-- Both flags about the siblings have to be set for the walk to go on. -/
theorem isLast_eq (node : Scratch) :
    node.isLast =
      !(Flag.nextDynamic.isIn node.flags && Flag.nextSolid.isIn node.flags) := by
  have hbytes : ∀ n : Fin 256,
      decide (UInt8.ofFin n &&& (Flag.nextDynamic.mask ||| Flag.nextSolid.mask) ≠
          Flag.nextDynamic.mask ||| Flag.nextSolid.mask) =
        !(Flag.nextDynamic.isIn (UInt8.ofFin n) && Flag.nextSolid.isIn (UInt8.ofFin n)) := by
    decide +kernel
  exact hbytes node.flags.toFin

/-! ## Reading -/

/-- What a flag byte says about the siblings to the right. -/
def following (flags : UInt8) : Following :=
  ⟨Flag.nextDynamic.isIn flags, Flag.nextSolid.isIn flags⟩

/-- The slot in a word, if it has been given. -/
def given? (slot : UInt32) : Option Nat :=
  if slot = 0 then none else some slot.toNat

mutual

/-- What a scratch tree says, as an outline. -/
def read : Scratch → Outline
  | element tag properties bound mounts flags slot children =>
    .element tag properties ⟨bound.toNat, mounts.toNat, Flag.dynamic.isIn flags⟩ (following flags)
      (given? slot) (readAll children)
  | text value flags slot => .text value (following flags) (given? slot)
  | placeholder target _ => .placeholder target

def readAll : List Scratch → List Outline
  | [] => []
  | node :: rest => read node :: readAll rest

end

theorem readAll_eq_map (nodes : List Scratch) : readAll nodes = nodes.map read := by
  induction nodes with
  | nil => rfl
  | cons node rest ih => rw [readAll, ih, List.map_cons]

def children : Scratch → List Scratch
  | element _ _ _ _ _ _ children => children
  | _ => []

/-- The scratch tree at a place below a scratch tree. -/
def at? : Scratch → List Nat → Option Scratch
  | node, [] => some node
  | node, index :: rest => node.children[index]?.bind fun child => child.at? rest

/-- The slot of the node at a place, if it has been given one. -/
def slotAt? (node : Scratch) (place : List Nat) : Option Nat :=
  (node.at? place).bind fun found => given? found.slot

theorem children_read (node : Scratch) : node.read.children = node.children.map read := by
  cases node with
  | element tag properties bound mounts flags slot children => exact readAll_eq_map children
  | text value flags slot => rfl
  | placeholder target flags => rfl

theorem at?_read (node : Scratch) (place : List Nat) :
    node.read.at? place = (node.at? place).map read := by
  induction place generalizing node with
  | nil => rfl
  | cons index rest ih =>
      rw [Outline.at?, at?, children_read, List.getElem?_map]
      cases node.children[index]? with
      | none => rfl
      | some child => exact ih child

theorem slot?_read (node : Scratch) : node.read.slot? = given? node.slot := by
  cases node <;> rfl

theorem slotAt?_read (node : Scratch) (place : List Nat) :
    node.read.slotAt? place = node.slotAt? place := by
  rw [Outline.slotAt?, slotAt?, at?_read]
  cases node.at? place with
  | none => rfl
  | some found => exact found.slot?_read

theorem isPlaceholder_read (node : Scratch) : node.read.isPlaceholder = node.isPlaceholder := by
  cases node <;> rfl

theorem ends_following (node : Scratch) : (following node.flags).ends = node.isLast := by
  rw [isLast_eq]
  rfl

theorem given?_of_pos {slot : UInt32} (h : 0 < slot.toNat) : given? slot = some slot.toNat := by
  rw [given?, if_neg]
  rintro rfl
  exact Nat.lt_irrefl 0 h

/-! ## Building -/

/-- A pass over siblings has found what the outlines of the siblings say. -/
structure Scan.Reads (scan : Scan) (flags : UInt8) (nodes : List Node) : Prop where
  children : readAll scan.children = (Outline.ofNodes nodes).1
  siblings : following scan.siblings = (Outline.ofNodes nodes).2
  /-- the flag of the element itself does not get among those for its children -/
  apart : Flag.dynamic.isIn scan.siblings = false
  mounts : scan.mounts.toNat = nodes.countP Node.isPlaceholder
  /-- the flags about the siblings of the element stay as they were -/
  kept : following scan.flags = following flags
  dynamic : (Flag.dynamic.isIn scan.flags || decide (0 < scan.mounts)) =
    (Flag.dynamic.isIn flags || (Outline.ofNodes nodes).2.dynamic)

theorem following_or_nextSolid (flags : UInt8) :
    following (flags ||| Flag.nextSolid.mask) = { following flags with solid := true } := by
  simp [following, Flag.isIn_or_mask]

theorem following_or_nextDynamic (flags : UInt8) :
    following (flags ||| Flag.nextDynamic.mask) = { following flags with dynamic := true } := by
  simp [following, Flag.isIn_or_mask]

theorem following_setIf_nextDynamic (condition : Bool) (flags : UInt8) :
    following (Flag.nextDynamic.setIf condition flags) =
      { following flags with dynamic := (following flags).dynamic || condition } := by
  simp [following, Flag.isIn_setIf]

theorem following_setIf_dynamic (condition : Bool) (flags : UInt8) :
    following (Flag.dynamic.setIf condition flags) = following flags := by
  simp [following, Flag.isIn_setIf]

theorem pos_iff_toNat {word : UInt32} : 0 < word ↔ 0 < word.toNat :=
  UInt32.lt_iff_toNat_lt

theorem toNat_ofNat_of_lt {n : Nat} (h : n < 2 ^ 32) : (UInt32.ofNat n).toNat = n :=
  UInt32.toNat_ofNat_of_lt' h

theorem toNat_add_one {word : UInt32} (h : word.toNat + 1 < 2 ^ 32) :
    (word + 1).toNat = word.toNat + 1 := by
  rw [UInt32.toNat_add]
  exact Nat.mod_eq_of_lt h

namespace Scan.Reads

variable {flags : UInt8} {rest : List Node}

theorem nil (flags : UInt8) : (scanChildren flags []).Reads flags [] where
  children := rfl
  siblings := by
    simp [scanChildren, Outline.ofNodes, following, Flag.isIn_zero, Following.nothing]
  apart := Flag.isIn_zero .dynamic
  mounts := rfl
  kept := rfl
  dynamic := by simp [scanChildren, Outline.ofNodes, Following.nothing]

/-- An element is noted if the scratch tree of it alone is right. -/
theorem cons_element (h : (scanChildren flags rest).Reads flags rest) {tag : String}
    {properties : List Property} {children : List Node}
    (hread : (ofNode (scanChildren flags rest).siblings (.element tag properties children)).read =
      Outline.ofNode (following (scanChildren flags rest).siblings)
        (.element tag properties children)) :
    (scanChildren flags (.element tag properties children :: rest)).Reads flags
      (.element tag properties children :: rest) := by
  have hdynamic : (ofNode (scanChildren flags rest).siblings
        (.element tag properties children)).isDynamic =
      (Outline.ofNode (Outline.ofNodes rest).2 (.element tag properties children)).isDynamic := by
    rw [← h.siblings, ← hread, ofNode]
    rfl
  constructor
  · rw [scanChildren, readAll, hread, h.siblings, h.children, Outline.ofNodes_cons]
  · rw [scanChildren, following_or_nextSolid, following_setIf_nextDynamic, h.siblings, hdynamic,
      Outline.ofNodes_cons, Outline.extend, Outline.isPlaceholder_ofNode]
    simp [Node.isPlaceholder]
  · rw [scanChildren, Flag.isIn_or_mask, Flag.isIn_setIf, h.apart]
    simp
  · rw [scanChildren, h.mounts]
    simp [Node.isPlaceholder]
  · rw [scanChildren, following_setIf_dynamic, h.kept]
  · -- A wrapped count would hide the placeholders; here both sides still know of them.
    have hbefore := h.dynamic
    rw [scanChildren, Flag.isIn_setIf, hdynamic, Outline.ofNodes_cons, Outline.extend,
      ← Bool.or_assoc, ← hbefore]
    cases Flag.dynamic.isIn (scanChildren flags rest).flags <;> simp [Bool.or_comm]

theorem cons_text (h : (scanChildren flags rest).Reads flags rest) (value : String) :
    (scanChildren flags (.text value :: rest)).Reads flags (.text value :: rest) := by
  constructor
  · rw [scanChildren, readAll, h.children, Outline.ofNodes_cons, ← h.siblings]
    rfl
  · rw [scanChildren, following_or_nextSolid, h.siblings, Outline.ofNodes_cons, Outline.extend]
    simp [Outline.ofNode, Outline.isDynamic, Outline.isPlaceholder]
  · rw [scanChildren, Flag.isIn_or_mask, h.apart]
    simp
  · rw [scanChildren, h.mounts]
    simp [Node.isPlaceholder]
  · exact h.kept
  · rw [scanChildren, h.dynamic, Outline.ofNodes_cons, Outline.extend]
    simp [Outline.ofNode, Outline.isDynamic]

/-- A placeholder is noted if there is room for one more. -/
theorem cons_placeholder (h : (scanChildren flags rest).Reads flags rest) (target : Placeholder)
    (hroom : rest.countP Node.isPlaceholder + 1 < 2 ^ 32) :
    (scanChildren flags (.placeholder target :: rest)).Reads flags
      (.placeholder target :: rest) := by
  have hcount : ((scanChildren flags rest).mounts + 1).toNat =
      rest.countP Node.isPlaceholder + 1 := by
    rw [← h.mounts] at hroom ⊢
    exact toNat_add_one hroom
  constructor
  · rw [scanChildren, readAll, h.children, Outline.ofNodes_cons]
    rfl
  · rw [scanChildren, following_or_nextDynamic, h.siblings, Outline.ofNodes_cons, Outline.extend]
    simp [Outline.ofNode, Outline.isDynamic, Outline.isPlaceholder]
  · rw [scanChildren, Flag.isIn_or_mask, h.apart]
    simp
  · rw [scanChildren, hcount, List.countP_cons]
    simp [Node.isPlaceholder]
  · exact h.kept
  · have hpos : 0 < (scanChildren flags rest).mounts + 1 := by
      rw [pos_iff_toNat, hcount]
      exact Nat.succ_pos _
    rw [scanChildren, Outline.ofNodes_cons, Outline.extend]
    simp [Outline.ofNode, Outline.isDynamic, hpos]

end Scan.Reads

mutual

/-- The scratch tree of a node says what the outline of the node does. -/
theorem read_ofNode {flags : UInt8} (hflags : Flag.dynamic.isIn flags = false) :
    ∀ {node : Node}, node.FitsWords →
      (ofNode flags node).read = Outline.ofNode (following flags) node
  | .element tag properties children, hfits => by
      obtain ⟨hchildren, hproperties⟩ := hfits.children
      have hscan := scanChildren_reads flags hchildren
      have hbound : (UInt32.ofNat (properties.countP Property.isDynamic)).toNat =
          properties.countP Property.isDynamic :=
        toNat_ofNat_of_lt (Nat.lt_of_le_of_lt List.countP_le_length hproperties)
      -- The flag is set by three tests, of which one was made among the children.
      have hdynamic : Flag.dynamic.isIn (Flag.dynamic.setIf
            (0 < UInt32.ofNat (properties.countP Property.isDynamic) ||
              0 < (scanChildren flags children).mounts) (scanChildren flags children).flags) =
          (Outline.marksOf properties children).dynamic := by
        have hscanned := hscan.dynamic
        rw [hflags, Bool.false_or] at hscanned
        simp only [Flag.isIn_setIf, Outline.marksOf, ← hscanned, decide_true, Bool.and_true,
          decide_eq_decide.mpr (@pos_iff_toNat (.ofNat _)), hbound]
        exact Bool.or_left_comm ..
      rw [ofNode, read, Outline.ofNode_element, hscan.children, hdynamic, hbound, hscan.mounts,
        following_setIf_dynamic, hscan.kept]
      rfl
  | .text value, _ => rfl
  | .placeholder target, _ => rfl

theorem scanChildren_reads (flags : UInt8) :
    ∀ {nodes : List Node}, Node.AllFitWords nodes → (scanChildren flags nodes).Reads flags nodes
  | [], _ => .nil flags
  | .element _ _ _ :: _, hfits => by
      have hscan := scanChildren_reads flags hfits.cons.2
      exact hscan.cons_element (read_ofNode hscan.apart hfits.cons.1)
  | .text value :: _, hfits => (scanChildren_reads flags hfits.cons.2).cons_text value
  | .placeholder target :: rest, hfits => by
      have hcount := hfits.countP_lt Node.isPlaceholder
      rw [List.countP_cons] at hcount
      exact (scanChildren_reads flags hfits.cons.2).cons_placeholder target hcount

end

/-! ## Numbering -/

theorem patched_eq (bound mounts : UInt32) (dynamic : Bool) :
    Marks.patched ⟨bound.toNat, mounts.toNat, dynamic⟩ = (0 < bound || 0 < mounts) := by
  simp only [Marks.patched, UInt32.lt_iff_toNat_lt]
  rfl

mutual

/-- The next free slot is never one that has been given. -/
theorem le_number (behind : Bool) (next : Nat) :
    ∀ outline : Outline, next ≤ (Outline.number behind next outline).2
  | .element tag properties marks following slot children => by
      have hmore := le_numberAll false (next + 1) children
      have hsame := le_numberAll false next children
      rw [Outline.number]
      split
      · exact Nat.le_of_succ_le hmore
      · exact hsame
  | .text value following slot => by
      cases behind with
      | false => exact Nat.le_refl next
      | true => exact Nat.le_succ next
  | .placeholder target => Nat.le_refl next

theorem le_numberAll (behind : Bool) (next : Nat) :
    ∀ outlines : List Outline, next ≤ (Outline.numberAll behind next outlines).2
  | [] => Nat.le_refl next
  | outline :: rest => by
      rw [Outline.numberAll]
      exact (le_number behind next outline).trans (le_numberAll outline.isPlaceholder _ rest)

end

/-- What numbering has done to a node, read as the numbering of its outline. -/
def Numbers (behind : Bool) (next : UInt32) (node : Scratch) : Prop :=
  (number behind next node).1.read = (Outline.number behind next.toNat node.read).1 ∧
    (number behind next node).2.toNat = (Outline.number behind next.toNat node.read).2

/-- The same for siblings. -/
def NumbersAll (behind : Bool) (next : UInt32) (nodes : List Scratch) : Prop :=
  readAll (numberAll behind next nodes).1 =
      (Outline.numberAll behind next.toNat (readAll nodes)).1 ∧
    (numberAll behind next nodes).2.toNat =
      (Outline.numberAll behind next.toNat (readAll nodes)).2

mutual

/-- Slots are given out as in an outline, unless there are too many for a word. -/
theorem numbers_of_lt (behind : Bool) {next : UInt32} (hnext : 0 < next.toNat) :
    ∀ {node : Scratch}, (Outline.number behind next.toNat node.read).2 < 2 ^ 32 →
      Numbers behind next node
  | element tag properties bound mounts flags slot children, hlt => by
      rw [Numbers, read, number, Outline.number, patched_eq]
      rw [read, Outline.number, patched_eq] at hlt
      split
      · rename_i hneeded
        rw [if_pos hneeded] at hlt
        have hroom : next.toNat + 1 < 2 ^ 32 :=
          Nat.lt_of_le_of_lt (le_numberAll false _ (readAll children)) hlt
        have hsucc := toNat_add_one hroom
        rw [← hsucc] at hlt
        obtain ⟨hinner, hfree⟩ :=
          numbersAll_of_lt false (by rw [hsucc]; exact Nat.succ_pos _) hlt
        rw [hsucc] at hinner hfree
        exact ⟨by rw [read, hinner, given?_of_pos hnext], hfree⟩
      · rename_i hneeded
        rw [if_neg hneeded] at hlt
        obtain ⟨hinner, hfree⟩ := numbersAll_of_lt false hnext hlt
        exact ⟨by rw [read, hinner], hfree⟩
  | text value flags slot, hlt => by
      rw [Numbers, read, number, Outline.number]
      rw [read, Outline.number] at hlt
      cases behind with
      | false => exact ⟨rfl, rfl⟩
      | true => exact ⟨by rw [if_pos rfl, if_pos rfl, read, given?_of_pos hnext], toNat_add_one hlt⟩
  | placeholder target flags, _ => ⟨rfl, rfl⟩

theorem numbersAll_of_lt (behind : Bool) {next : UInt32} (hnext : 0 < next.toNat) :
    ∀ {nodes : List Scratch}, (Outline.numberAll behind next.toNat (readAll nodes)).2 < 2 ^ 32 →
      NumbersAll behind next nodes
  | [], _ => ⟨rfl, rfl⟩
  | node :: rest, hlt => by
      have hcons : (Outline.numberAll behind next.toNat (readAll (node :: rest))).2 =
          (Outline.numberAll node.isPlaceholder
            (Outline.number behind next.toNat node.read).2 (readAll rest)).2 := by
        rw [readAll, Outline.numberAll, isPlaceholder_read]
      rw [hcons] at hlt
      have hown := Nat.lt_of_le_of_lt (le_numberAll node.isPlaceholder _ (readAll rest)) hlt
      obtain ⟨hnode, hfree⟩ := numbers_of_lt behind hnext hown
      have hpos : 0 < (number behind next node).2.toNat := by
        rw [hfree]
        exact Nat.lt_of_lt_of_le hnext (le_number behind _ _)
      rw [← hfree] at hlt
      obtain ⟨hmore, hlast⟩ := numbersAll_of_lt node.isPlaceholder hpos hlt
      rw [hfree] at hmore hlast
      refine ⟨?_, hlast.trans hcons.symm⟩
      rw [numberAll, readAll, readAll, Outline.numberAll, isPlaceholder_read, hnode, hmore]

end

end Scratch

/-! ## Root elements -/

namespace Node

mutual

theorem length_saved_le (place : List Nat) (behind : Bool) :
    ∀ node : Node, (node.saved place behind).length ≤ node.nodeCount
  | element tag properties children => by
      have hinner := length_savedAll_le place 0 false children
      rw [saved, nodeCount, List.length_append]
      split <;> simp <;> omega
  | text value => by
      cases behind <;> simp [saved, nodeCount]
  | placeholder target => Nat.zero_le _

/-- There are no more slots than nodes. -/
theorem length_savedAll_le (place : List Nat) (index : Nat) (behind : Bool) :
    ∀ nodes : List Node, (savedAll place index behind nodes).length ≤ nodeCountAll nodes
  | [] => Nat.le_refl 0
  | node :: rest => by
      rw [savedAll, List.length_append, nodeCountAll]
      exact Nat.add_le_add (length_saved_le _ behind node) (length_savedAll_le place _ _ rest)

end

end Node

namespace Element

/-- The scratch tree of a root element with its slots. -/
def scratch (e : Element) : Scratch :=
  (Scratch.ofNode 0 e.toNode).numberRoot.1

/-- The number of slots that are given out below a root element, with the one of the root itself. -/
def slotsGiven (e : Element) : Nat :=
  (Scratch.ofNode 0 e.toNode).numberRoot.2.toNat

theorem slotCount_lt {e : Element} (h : e.toNode.FitsWords) : e.slotCount < 2 ^ 32 := by
  have hsaved := Node.length_savedAll_le [] 0 false e.children
  have hnodes := h.nodes
  rw [toNode, Node.nodeCount] at hnodes
  rw [slotCount_eq, saved]
  omega

/-- Numbering the scratch tree of a root gives what numbering its outline does. -/
theorem numberRoot_reads {e : Element} (h : e.toNode.FitsWords) :
    e.scratch.read = e.outline ∧ e.slotsGiven = e.slotCount := by
  have hread : (Scratch.ofNode 0 e.toNode).read = Outline.ofNode .nothing e.toNode :=
    Scratch.read_ofNode (Flag.isIn_zero .dynamic) h
  have hlt := slotCount_lt h
  rw [scratch, slotsGiven, outline]
  rw [slotCount] at hlt ⊢
  rw [← hread] at hlt ⊢
  rw [toNode, Scratch.ofNode] at hlt ⊢
  rw [Scratch.read, Outline.numberRoot] at hlt
  have hone : (1 : UInt32).toNat = 1 := rfl
  rw [← hone] at hlt
  obtain ⟨hinner, hfree⟩ := Scratch.numbersAll_of_lt false (by decide) hlt
  rw [Scratch.read, Scratch.numberRoot, Outline.numberRoot, Scratch.read, hinner]
  exact ⟨rfl, hfree⟩

theorem slotsGiven_eq {e : Element} (h : e.toNode.FitsWords) : e.slotsGiven = e.slotCount :=
  (numberRoot_reads h).2

theorem slotAt?_scratch {e : Element} (h : e.toNode.FitsWords) (place : List Nat) :
    e.scratch.slotAt? place = e.outline.slotAt? place := by
  rw [← (numberRoot_reads h).1, Scratch.slotAt?_read]

end Element

end DomTemplate

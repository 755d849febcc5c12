import Mathlib
import DomTemplate.Proofs.NormalForm
import DomTemplate.Proofs.Texts

/-!
# Normal forms are canonical

The content of siblings is what a reader sees of them: the tags with their properties, the single
characters of the texts, and the placeholders.  It does not show how a run of characters is cut into
texts, or whether there are empty texts somewhere.  Normalising keeps the content, and two normal
forms with the same content are the same, so normalising picks one list of siblings for each
content.
-/

namespace DomTemplate

/-! ## Content -/

/-- What a reader meets one after the other. -/
inductive Token where
  | opening (tag : String) (properties : List Property)
  | closing
  | char (c : Char)
  | placeholder (target : Placeholder)
deriving DecidableEq

def Token.isChar : Token → Bool
  | char _ => true
  | _ => false

namespace Node

mutual

def content : Node → List Token
  | element tag properties children => .opening tag properties :: contentAll children ++ [.closing]
  | text value => value.toList.map .char
  | placeholder target => [.placeholder target]

/-- The content of siblings. -/
def contentAll : List Node → List Token
  | [] => []
  | node :: rest => content node ++ contentAll rest

end

theorem contentAll_append (nodes more : List Node) :
    contentAll (nodes ++ more) = contentAll nodes ++ contentAll more := by
  induction nodes with
  | nil => rfl
  | cons node rest ih => simp [contentAll, ih]

theorem contentAll_flush (pending : String) :
    contentAll (flush pending) = pending.toList.map .char := by
  unfold flush
  split
  · rename_i hpending
    simp [hpending, contentAll]
  · simp [contentAll, content]

mutual

theorem content_normalizeRoot : ∀ node : Node, node.normalizeRoot.content = node.content
  | element tag properties children => by
      rw [normalizeRoot, content, content, contentAll_normalizeFrom]
      rfl
  | text value => rfl
  | placeholder target => rfl

/-- What is pending comes before the content of the siblings that follow. -/
theorem contentAll_normalizeFrom (pending : String) :
    ∀ nodes : List Node, contentAll (normalizeFrom pending nodes) =
      pending.toList.map .char ++ contentAll nodes
  | [] => by
      rw [normalizeFrom, contentAll_flush, contentAll, List.append_nil]
  | text value :: rest => by
      rw [normalizeFrom, contentAll_normalizeFrom, contentAll, content]
      simp
  | element tag properties children :: rest => by
      rw [normalizeFrom]
      · rw [contentAll_append, contentAll_flush, contentAll, content_normalizeRoot,
          contentAll_normalizeFrom "" rest, contentAll]
        rfl
      · simp
  | placeholder target :: rest => by
      rw [normalizeFrom]
      · rw [contentAll_append, contentAll_flush, contentAll, content_normalizeRoot,
          contentAll_normalizeFrom "" rest, contentAll]
        rfl
      · simp

end

/-! ## Levels -/

/-- The lists of siblings below some nodes. -/
def levelsBelow : List Node → List (List Node)
  | [] => []
  | element _ _ children :: rest => children :: levelsBelow children ++ levelsBelow rest
  | _ :: rest => levelsBelow rest

/-- Whether siblings are tidy among themselves: no text is empty and no two texts are neighbours. -/
def Tidy (level : List Node) : Prop :=
  (∀ value, text value ∈ level → value ≠ "") ∧
    level.IsChain fun left right => ¬ (left.isText = true ∧ right.isText = true)

/-- A list of siblings is in normal form if it is tidy and so are all below it. -/
def InNormalForm (nodes : List Node) : Prop :=
  ∀ level ∈ nodes :: levelsBelow nodes, Tidy level

theorem inNormalForm_iff {nodes : List Node} :
    InNormalForm nodes ↔ Tidy nodes ∧ ∀ level ∈ levelsBelow nodes, Tidy level :=
  List.forall_mem_cons

/-- Whether the first sibling may come right behind a text. -/
def MayFollow (afterText : Bool) (nodes : List Node) : Prop :=
  afterText = true → ∀ node ∈ nodes.head?, node.isText = false

theorem tidy_cons {node : Node} {rest : List Node} :
    Tidy (node :: rest) ↔
      (∀ value, node = text value → value ≠ "") ∧ MayFollow node.isText rest ∧ Tidy rest := by
  simp only [Tidy, MayFollow, List.isChain_cons, List.mem_cons]
  constructor
  · rintro ⟨hfilled, hnext, hchain⟩
    refine ⟨fun value h => hfilled value (.inl h.symm), fun htext next hmem => ?_,
      fun value h => hfilled value (.inr h), hchain⟩
    simpa [htext] using hnext next hmem
  · rintro ⟨hown, hnext, hfilled, hchain⟩
    refine ⟨?_, fun next hmem hboth => ?_, hchain⟩
    · rintro value (h | h)
      · exact hown value h.symm
      · exact hfilled value h
    · simp [hnext hboth.1 next hmem] at hboth

theorem mayFollow_false (nodes : List Node) : MayFollow false nodes :=
  fun h => Bool.noConfusion h

theorem mayFollow_text (afterText : Bool) (value : String) (rest : List Node) :
    MayFollow afterText (text value :: rest) ↔ afterText = false := by
  simp [MayFollow, isText]

theorem mayFollow_cons_of_not_text {node : Node} (afterText : Bool) (rest : List Node)
    (hnode : node.isText = false) : MayFollow afterText (node :: rest) := by
  simp [MayFollow, hnode]

theorem tidy_text (value : String) (rest : List Node) :
    Tidy (text value :: rest) ↔ value ≠ "" ∧ MayFollow true rest ∧ Tidy rest := by
  simp [tidy_cons, isText]

theorem tidy_cons_of_not_text {node : Node} (rest : List Node) (hnode : node.isText = false) :
    Tidy (node :: rest) ↔ Tidy rest := by
  have hfilled : ∀ value, node = text value → value ≠ "" := by
    rintro value rfl
    simp [isText] at hnode
  rw [tidy_cons, hnode, and_iff_right hfilled, and_iff_right (mayFollow_false rest)]

/-- The check on normal forms, which goes through siblings from left to right, accepts exactly those
that are in normal form and fit behind what comes before. -/
theorem areNormal_iff :
    ∀ (afterText : Bool) (nodes : List Node), areNormal afterText nodes = true ↔
      MayFollow afterText nodes ∧ InNormalForm nodes
  | afterText, [] => by
      simp [areNormal, MayFollow, InNormalForm, levelsBelow, Tidy]
  | afterText, text value :: rest => by
      rw [areNormal_text, mayFollow_text]
      simp only [Bool.and_eq_true, decide_eq_true_eq, Bool.not_eq_true', areNormal_iff true rest,
        inNormalForm_iff, levelsBelow, tidy_text]
      tauto
  | afterText, element tag properties children :: rest => by
      rw [areNormal_cons_of_not_text _ _ rfl, isNormal, Bool.and_eq_true,
        areNormal_iff false children, areNormal_iff false rest,
        and_iff_right (mayFollow_false children), and_iff_right (mayFollow_false rest),
        and_iff_right (mayFollow_cons_of_not_text afterText rest rfl)]
      have htidy : Tidy (element tag properties children :: rest) ↔ Tidy rest :=
        tidy_cons_of_not_text rest rfl
      simp only [inNormalForm_iff, levelsBelow, htidy, List.cons_append, List.forall_mem_cons,
        List.forall_mem_append]
      tauto
  | afterText, placeholder target :: rest => by
      rw [areNormal_cons_of_not_text _ _ rfl, isNormal, Bool.true_and, areNormal_iff false rest,
        and_iff_right (mayFollow_false rest),
        and_iff_right (mayFollow_cons_of_not_text afterText rest rfl)]
      have htidy : Tidy (placeholder target :: rest) ↔ Tidy rest := tidy_cons_of_not_text rest rfl
      simp only [inNormalForm_iff, levelsBelow, htidy]

/-! ## Reading content back -/

/-- No character comes next where a text may not follow. -/
theorem head?_contentAll {nodes : List Node} (more : List Token)
    (h : areNormal true nodes = true) :
    (contentAll nodes ++ .closing :: more).head?.any (fun token => !token.isChar) = true := by
  cases nodes with
  | nil => rfl
  | cons node rest =>
      cases node with
      | element tag properties children => rfl
      | text value => simp [areNormal_text] at h
      | placeholder target => rfl

/-- The next token tells what the next sibling is, or that there is none. -/
theorem siblings_of_head? {afterText : Bool} {nodes : List Node} {more : List Token}
    {token : Token} (hnormal : areNormal afterText nodes = true)
    (h : (contentAll nodes ++ .closing :: more).head? = some token) :
    match token with
    | .closing => nodes = []
    | .opening tag properties => ∃ children rest, nodes = element tag properties children :: rest
    | .char _ => ∃ value rest, nodes = text value :: rest
    | .placeholder target => ∃ rest, nodes = placeholder target :: rest := by
  cases nodes with
  | nil =>
      obtain rfl : Token.closing = token := Option.some.inj h
      rfl
  | cons node rest =>
      cases node with
      | element tag properties children =>
          obtain rfl : Token.opening tag properties = token := Option.some.inj h
          exact ⟨children, rest, rfl⟩
      | text value =>
          have hvalue : value ≠ "" := by
            simp only [areNormal_text, Bool.and_eq_true, decide_eq_true_eq] at hnormal
            exact hnormal.1.1
          obtain ⟨c, cs, hcs⟩ := Text.exists_cons_of_ne_empty hvalue
          rw [contentAll, content, hcs] at h
          obtain rfl : Token.char c = token := Option.some.inj h
          exact ⟨value, rest, rfl⟩
      | placeholder target =>
          obtain rfl : Token.placeholder target = token := Option.some.inj h
          exact ⟨rest, rfl⟩

theorem toList_map_char_injective {value other : String}
    (h : value.toList.map Token.char = other.toList.map Token.char) : value = other :=
  String.toList_inj.mp (List.map_injective_iff.mpr (fun _ _ => Token.char.inj) h)

/-- A text ends at the first token that is no character, so both lists begin with the same one. -/
theorem text_unique {value other : String} {rest others : List Node} {more more' : List Token}
    (hrest : areNormal true rest = true) (hothers : areNormal true others = true)
    (h : contentAll (text value :: rest) ++ .closing :: more =
      contentAll (text other :: others) ++ .closing :: more') :
    value = other ∧
      contentAll rest ++ .closing :: more = contentAll others ++ .closing :: more' := by
  simp only [contentAll, content, List.append_assoc] at h
  have hchars (value : String) :
      ∀ token ∈ value.toList.map Token.char, (!token.isChar) = false := by
    simp [Token.isChar]
  obtain ⟨hvalue, hmore⟩ := Text.append_unique (hchars value) (hchars other)
    (head?_contentAll more hrest) (head?_contentAll more' hothers) h
  exact ⟨toList_map_char_injective hvalue, hmore⟩

/-- Normal forms can be read back from their content: the induction is on one of the two lists, and
the next token says that the other one goes on in the same way. -/
theorem contentAll_unique :
    ∀ {nodes others : List Node} {first second : Bool} {more more' : List Token},
      areNormal first nodes = true → areNormal second others = true →
      contentAll nodes ++ .closing :: more = contentAll others ++ .closing :: more' →
      nodes = others ∧ more = more'
  | [], others, first, second, more, more', _, hothers, h => by
      obtain rfl : others = [] := siblings_of_head? hothers (congrArg List.head? h).symm
      exact ⟨rfl, (List.cons.inj h).2⟩
  | element tag properties children :: rest, others, first, second, more, more', hnodes, hothers,
      h => by
      obtain ⟨children', rest', rfl⟩ := siblings_of_head? hothers (congrArg List.head? h).symm
      rw [areNormal_cons_of_not_text _ _ rfl, isNormal, Bool.and_eq_true] at hnodes hothers
      simp only [contentAll, content, List.cons_append, List.append_assoc, List.cons.injEq,
        true_and, List.nil_append] at h
      -- The children end at the closing token of their element, the siblings at the one behind.
      obtain ⟨rfl, hmore⟩ := contentAll_unique hnodes.1 hothers.1 h
      obtain ⟨rfl, rfl⟩ := contentAll_unique hnodes.2 hothers.2 hmore
      exact ⟨rfl, rfl⟩
  | text value :: rest, others, first, second, more, more', hnodes, hothers, h => by
      simp only [areNormal_text, Bool.and_eq_true, decide_eq_true_eq] at hnodes
      obtain ⟨⟨hvalue, -⟩, hrest⟩ := hnodes
      -- The first token is a character only because the text is not empty.
      obtain ⟨c, cs, hcs⟩ := Text.exists_cons_of_ne_empty hvalue
      have hhead := (congrArg List.head? h).symm
      rw [contentAll, content, hcs] at hhead
      obtain ⟨other, rest', rfl⟩ := siblings_of_head? hothers hhead
      simp only [areNormal_text, Bool.and_eq_true] at hothers
      obtain ⟨rfl, hmore⟩ := text_unique hrest hothers.2 h
      obtain ⟨rfl, rfl⟩ := contentAll_unique hrest hothers.2 hmore
      exact ⟨rfl, rfl⟩
  | placeholder target :: rest, others, first, second, more, more', hnodes, hothers, h => by
      obtain ⟨rest', rfl⟩ := siblings_of_head? hothers (congrArg List.head? h).symm
      rw [areNormal_cons_of_not_text _ _ rfl, isNormal, Bool.true_and] at hnodes hothers
      obtain ⟨rfl, rfl⟩ := contentAll_unique hnodes hothers (List.cons.inj h).2
      exact ⟨rfl, rfl⟩

theorem areNormal_false_iff (nodes : List Node) :
    areNormal false nodes = true ↔ InNormalForm nodes := by
  rw [areNormal_iff, and_iff_right (mayFollow_false nodes)]

theorem contentAll_normalize (nodes : List Node) :
    contentAll (normalize nodes) = contentAll nodes :=
  contentAll_normalizeFrom "" nodes

theorem inNormalForm_normalize (nodes : List Node) : InNormalForm (normalize nodes) :=
  (areNormal_false_iff _).mp (areNormal_normalizeFrom "" nodes)

/-- Two normal forms with the same content are the same. -/
theorem InNormalForm.eq_of_contentAll_eq {nodes others : List Node} (hnodes : InNormalForm nodes)
    (hothers : InNormalForm others) (h : contentAll nodes = contentAll others) :
    nodes = others := by
  rw [← areNormal_false_iff] at hnodes hothers
  -- A closing token behind both marks where they end.
  have hclosed := congrArg (· ++ [Token.closing]) h
  exact (contentAll_unique hnodes hothers hclosed).1

theorem normalize_eq_self_iff (nodes : List Node) :
    normalize nodes = nodes ↔ InNormalForm nodes := by
  constructor
  · intro h
    rw [← h]
    exact inNormalForm_normalize nodes
  · intro h
    exact (inNormalForm_normalize nodes).eq_of_contentAll_eq h (contentAll_normalize nodes)

theorem normalize_eq_iff (nodes others : List Node) :
    normalize nodes = normalize others ↔ contentAll nodes = contentAll others := by
  constructor
  · intro h
    rw [← contentAll_normalize nodes, h, contentAll_normalize]
  · intro h
    apply (inNormalForm_normalize nodes).eq_of_contentAll_eq (inNormalForm_normalize others)
    rw [contentAll_normalize, contentAll_normalize, h]

end Node

/-- Normalising picks the one normal form among all lists of siblings with the same content. -/
theorem normalize_canonical (nodes others : List Node) :
    Node.contentAll (Node.normalize nodes) = Node.contentAll nodes ∧
      Node.InNormalForm (Node.normalize nodes) ∧
      (Node.InNormalForm nodes → Node.InNormalForm others →
        Node.contentAll nodes = Node.contentAll others → nodes = others) ∧
      (Node.normalize nodes = Node.normalize others ↔
        Node.contentAll nodes = Node.contentAll others) ∧
      Node.normalize (Node.normalize nodes) = Node.normalize nodes ∧
      (Node.normalize nodes = nodes ↔ Node.InNormalForm nodes) := by
  refine ⟨Node.contentAll_normalize nodes, Node.inNormalForm_normalize nodes, ?_,
    Node.normalize_eq_iff nodes others, ?_, Node.normalize_eq_self_iff nodes⟩
  · exact fun hnodes hothers h => hnodes.eq_of_contentAll_eq hothers h
  · exact (Node.normalize_eq_self_iff _).mpr (Node.inNormalForm_normalize nodes)

/-- Texts that are neighbours below an element, and empty ones. -/
def Node.tornList : List Node :=
  [.text "a", .text "", .element "b" [] [.text "c", .text "d"], .placeholder ⟨1⟩, .text ""]

/-- The same content in normal form. -/
def Node.neatList : List Node :=
  [.text "a", .element "b" [] [.text "cd"], .placeholder ⟨1⟩]

theorem normalize_tornList :
    Node.InNormalForm Node.neatList ∧ ¬ Node.InNormalForm Node.tornList ∧
      Node.contentAll Node.tornList = Node.contentAll Node.neatList ∧
      Node.normalize Node.tornList = Node.neatList := by
  have hneat : Node.InNormalForm Node.neatList :=
    (Node.areNormal_false_iff Node.neatList).mp (by decide)
  have htorn : ¬ Node.InNormalForm Node.tornList := by
    rw [← Node.areNormal_false_iff]
    decide
  have hsame : Node.contentAll Node.tornList = Node.contentAll Node.neatList := by decide
  obtain ⟨hcontent, hnormal, -⟩ := normalize_canonical Node.tornList Node.neatList
  obtain ⟨-, -, hunique, -⟩ :=
    normalize_canonical (Node.normalize Node.tornList) Node.neatList
  exact ⟨hneat, htorn, hsame, hunique hnormal hneat (hcontent.trans hsame)⟩

end DomTemplate

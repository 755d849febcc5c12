import Mathlib
import DomTemplate.Proofs.Content
import DomTemplate.Proofs.Page.Clone
import DomTemplate.Proofs.Sites
import DomTemplate.Proofs.Texts
import DomTemplate.Text.Blank

/-!
# Markup can be read in one way only

Markup has its tags, keys, values and texts one behind the other and nothing that tells their
lengths.  Each ends at the first character that it cannot have itself, and what comes next between
two tags can be told from two characters.  So two pages with the same markup are the same, provided
that names, values and texts keep to their characters.

Nothing of the kind holds without that: a text with a tag in it has the markup of an element, and a
style key with a quote in it can end the tag.
-/

namespace DomTemplate

/-! ## Words -/

/-- The characters with a meaning of their own in markup, blanks apart. -/
def markupChars : List Char :=
  ['<', '>', '/', '!', '"', '=']

/-- Whether a character may stand in the name of a tag or of an attribute. -/
def isNameChar (c : Char) : Bool :=
  !Text.isBlank c && !markupChars.contains c

def isName (name : String) : Bool :=
  name ≠ "" && name.toList.all isNameChar

theorem beq_eq_false_of_notMem {stop : Char} {word : List Char} (h : stop ∉ word) :
    ∀ c ∈ word, (c == stop) = false :=
  fun _ hc => beq_false_of_ne fun heq => h (heq ▸ hc)

/-- What ends a name in an opening tag. -/
def endsName (c : Char) : Bool :=
  c == ' ' || c == '>' || c == '='

theorem isNameChar_of_mem {name : String} (h : isName name = true) {c : Char}
    (hc : c ∈ name.toList) : isNameChar c = true := by
  simp only [isName, Bool.and_eq_true, List.all_eq_true] at h
  exact h.2 c hc

theorem ne_of_isNameChar {c stop : Char} (hc : isNameChar c = true)
    (hstop : isNameChar stop = false) : c ≠ stop := by
  rintro rfl
  exact Bool.false_ne_true (hstop.symm.trans hc)

theorem not_endsName_of_mem {name : String} (h : isName name = true) :
    ∀ c ∈ name.toList, endsName c = false := by
  intro c hc
  have hchar := isNameChar_of_mem h hc
  have hblank : c ≠ ' ' := ne_of_isNameChar hchar (by decide)
  have hclose : c ≠ '>' := ne_of_isNameChar hchar (by decide)
  have hequals : c ≠ '=' := ne_of_isNameChar hchar (by decide)
  simp [endsName, hblank, hclose, hequals]

/-- A name begins with a character that can begin nothing else in a tag. -/
theorem exists_cons_of_isName {name : String} (h : isName name = true) :
    ∃ c rest, name.toList = c :: rest ∧ c ≠ '!' ∧ c ≠ '/' := by
  have hne : name ≠ "" := by
    simp only [isName, Bool.and_eq_true, decide_eq_true_eq] at h
    exact h.1
  obtain ⟨c, rest, hchars⟩ := Text.exists_cons_of_ne_empty hne
  have hchar : isNameChar c = true := isNameChar_of_mem h (by simp [hchars])
  exact ⟨c, rest, hchars, ne_of_isNameChar hchar (by decide), ne_of_isNameChar hchar (by decide)⟩

/-! ## Attributes -/

namespace Attributes

/-- Whether a text can stand between quotes. -/
def isQuotable (text : String) : Bool :=
  !text.toList.contains '"'

/-- Whether attributes can be read back: their keys are names, and what stands between quotes has
none itself. -/
def isLegible (attributes : Attributes) : Bool :=
  attributes.fields.all (fun field => isName field.1 && field.2.all isQuotable) &&
    isQuotable attributes.style

/-- The attributes with the style as the last of them. -/
def all (attributes : Attributes) : List (String × Option String) :=
  attributes.fields ++ if attributes.style = "" then [] else [("style", some attributes.style)]

/-- Attributes as a string of characters. -/
def chars (fields : List (String × Option String)) : List Char :=
  fields.flatMap fun field => (fieldText field).toList

theorem flatMap_parts (attributes : Attributes) :
    attributes.parts.flatMap String.toList = chars attributes.all := by
  rw [parts, all, chars]
  split <;> simp [List.flatMap_map, fieldText]

/-- What stands behind the key of an attribute. -/
def valueChars : Option String → List Char
  | some value => '=' :: '"' :: (value.toList ++ ['"'])
  | none => []

theorem toList_fieldText (field : String × Option String) :
    (fieldText field).toList = ' ' :: (field.1.toList ++ valueChars field.2) := by
  obtain ⟨key, value⟩ := field
  cases value <;> simp [fieldText, valueChars]

/-- Whether a key and a value can be told apart from what stands around them. -/
def LegibleField (field : String × Option String) : Prop :=
  isName field.1 = true ∧ field.2.all isQuotable = true

/-- What may follow an attribute: another one or the end of the tag. -/
def startsField (c : Char) : Bool :=
  c == ' ' || c == '>'

theorem endsName_of_startsField {rest : List Char} (h : rest.head?.any startsField = true) :
    rest.head?.any endsName = true := by
  cases rest with
  | nil => simp at h
  | cons c rest =>
      simp only [List.head?_cons, Option.any_some, startsField] at h
      simp [endsName, h]

/-- The value of an attribute ends at its closing quote, and where there is none the next attribute
or the end of the tag follows at once. -/
theorem valueChars_unique {value other : Option String} {rest more : List Char}
    (hvalue : value.all isQuotable = true) (hother : other.all isQuotable = true)
    (hrest : rest.head?.any startsField = true) (hmore : more.head?.any startsField = true)
    (h : valueChars value ++ rest = valueChars other ++ more) : value = other ∧ rest = more := by
  have hquote {text : String} (htext : isQuotable text = true) :
      ∀ c ∈ text.toList, (c == '"') = false :=
    beq_eq_false_of_notMem (by simpa [isQuotable] using htext)
  cases value with
  | none =>
      cases other with
      | none => exact ⟨rfl, h⟩
      | some other =>
          rw [show rest = _ from h] at hrest
          simp [valueChars, startsField] at hrest
  | some value =>
      cases other with
      | none =>
          rw [show more = _ from h.symm] at hmore
          simp [valueChars, startsField] at hmore
      | some other =>
          simp only [valueChars, List.cons_append, List.append_assoc, List.cons.injEq, true_and,
            List.nil_append] at h
          obtain ⟨htext, heq⟩ :=
            Text.append_unique (hquote hvalue) (hquote hother) (by rfl) (by rfl) h
          exact ⟨by rw [String.toList_inj.mp htext], (List.cons.inj heq).2⟩

theorem field_unique {field other : String × Option String} {rest more : List Char}
    (hfield : LegibleField field) (hother : LegibleField other)
    (hrest : rest.head?.any startsField = true) (hmore : more.head?.any startsField = true)
    (h : (fieldText field).toList ++ rest = (fieldText other).toList ++ more) :
    field = other ∧ rest = more := by
  have hends {value : Option String} {rest : List Char}
      (hrest : rest.head?.any startsField = true) :
      (valueChars value ++ rest).head?.any endsName = true := by
    cases value with
    | some value => rfl
    | none => exact endsName_of_startsField hrest
  rw [toList_fieldText, toList_fieldText, List.cons_append, List.cons_append, List.append_assoc,
    List.append_assoc] at h
  obtain ⟨hkey, hvalues⟩ := Text.append_unique (not_endsName_of_mem hfield.1)
    (not_endsName_of_mem hother.1) (hends hrest) (hends hmore) (List.cons.inj h).2
  obtain ⟨hvalue, heq⟩ := valueChars_unique hfield.2 hother.2 hrest hmore hvalues
  exact ⟨Prod.ext (String.toList_inj.mp hkey) hvalue, heq⟩

theorem startsField_chars (fields : List (String × Option String)) {rest : List Char}
    (hrest : rest.head? = some '>') : (chars fields ++ rest).head?.any startsField = true := by
  cases fields with
  | nil =>
      rw [chars, List.flatMap_nil, List.nil_append, hrest]
      rfl
  | cons field fields =>
      rw [chars, List.flatMap_cons, toList_fieldText]
      rfl

/-- The attributes end where the tag does. -/
theorem chars_unique {fields others : List (String × Option String)} {rest more : List Char}
    (hfields : ∀ field ∈ fields, LegibleField field) (hothers : ∀ field ∈ others, LegibleField field)
    (hrest : rest.head? = some '>') (hmore : more.head? = some '>')
    (h : chars fields ++ rest = chars others ++ more) : fields = others ∧ rest = more := by
  induction fields generalizing others with
  | nil =>
      cases others with
      | nil => exact ⟨rfl, h⟩
      | cons other others =>
          -- A further attribute begins with a blank, and the tag is over here.
          rw [show rest = _ from h, chars, List.flatMap_cons, toList_fieldText] at hrest
          simp at hrest
  | cons field fields ih =>
      cases others with
      | nil =>
          rw [show more = _ from h.symm, chars, List.flatMap_cons, toList_fieldText] at hmore
          simp at hmore
      | cons other others =>
          obtain ⟨hfield, hlater⟩ := List.forall_mem_cons.mp hfields
          obtain ⟨hother, hlast⟩ := List.forall_mem_cons.mp hothers
          rw [chars, chars, List.flatMap_cons, List.flatMap_cons, List.append_assoc,
            List.append_assoc] at h
          obtain ⟨rfl, htail⟩ := field_unique hfield hother (startsField_chars fields hrest)
            (startsField_chars others hmore) h
          obtain ⟨rfl, heq⟩ := ih hlater hlast htail
          exact ⟨rfl, heq⟩

/-- Without the style, the attributes are those that have been listed one by one. -/
theorem filter_all {attributes : Attributes}
    (hkeys : ∀ field ∈ attributes.fields, field.1 ≠ "style") :
    attributes.all.filter (fun field => field.1 ≠ "style") = attributes.fields := by
  have hfields : attributes.fields.filter (fun field => field.1 ≠ "style") = attributes.fields :=
    List.filter_eq_self.mpr fun field hfield => decide_eq_true (hkeys field hfield)
  rw [all, List.filter_append, hfields]
  split <;> simp

/-- The style is the only attribute of its name, so it can be told from the others. -/
theorem eq_of_all_eq {attributes others : Attributes}
    (hkeys : ∀ field ∈ attributes.fields, field.1 ≠ "style")
    (hothers : ∀ field ∈ others.fields, field.1 ≠ "style") (h : attributes.all = others.all) :
    attributes = others := by
  have hfields : attributes.fields = others.fields := by
    rw [← filter_all hkeys, h, filter_all hothers]
  obtain ⟨fields, style⟩ := attributes
  obtain ⟨others, other⟩ := others
  obtain rfl : fields = others := hfields
  have hstyle : (if style = "" then [] else [("style", some style)]) =
      if other = "" then [] else [("style", some other)] := List.append_cancel_left h
  split at hstyle
  · split at hstyle
    · simp_all
    · simp at hstyle
  · split at hstyle
    · simp at hstyle
    · simp_all

theorem legibleField_of_mem_all {attributes : Attributes} (h : attributes.isLegible = true) :
    ∀ field ∈ attributes.all, LegibleField field := by
  simp only [isLegible, Bool.and_eq_true, List.all_eq_true] at h
  obtain ⟨hfields, hstyle⟩ := h
  intro field hfield
  rw [all, List.mem_append] at hfield
  rcases hfield with hfield | hfield
  · exact hfields field hfield
  · split at hfield
    · simp at hfield
    · have hname : isName "style" = true := by decide
      rw [List.mem_singleton.mp hfield]
      exact ⟨hname, hstyle⟩

/-- The style never stands among the other attributes. -/
theorem key_ne_style (properties : List Property) :
    ∀ field ∈ (ofProperties properties).fields, field.1 ≠ "style" := by
  intro field hfield
  obtain ⟨p, -, hp⟩ := List.mem_filterMap.mp hfield
  unfold field? at hp
  split at hp
  · split at hp
    · cases hp
    · rename_i hkey
      cases hp
      exact hkey
  · split at hp
    · cases hp
    · rename_i hkey
      cases hp
      exact hkey
  · cases hp

end Attributes

/-! ## Pages -/

/-- What markup goes on with. -/
inductive Lead where
  | text
  | separator
  | element
  | closing
deriving DecidableEq

/-- What markup goes on with, by its first two characters. -/
def leadOf (markup : List Char) : Lead :=
  if markup.head? = some '<' then
    if markup[1]? = some '!' then .separator
    else if markup[1]? = some '/' then .closing
    else .element
  else .text

namespace Dom

variable {ι ν : Type}

mutual

/-- Whether a page can be read back from its markup.  Nothing has been logged or inserted yet. -/
def Legible : Dom ι ν → Prop
  | element _ tag attributes log children =>
    isName tag = true ∧ attributes.isLegible = true ∧
      (∀ field ∈ attributes.fields, field.1 ≠ "style") ∧ log = [] ∧
      (isVoid tag = true → children = []) ∧ LegibleAll children
  | text _ value => '<' ∉ value.toList
  | separator _ => True
  | mounted .. => False

def LegibleAll : List (Dom ι ν) → Prop
  | [] => True
  | node :: rest => Legible node ∧ LegibleAll rest

end

/-- The markup of a node as a string of characters. -/
def spell (node : Dom ι ν) : List Char :=
  (node.parts fun _ => "").flatMap String.toList

def spellAll (nodes : List (Dom ι ν)) : List Char :=
  (partsAll (fun _ => "") nodes).flatMap String.toList

/-- The closing tag of an element. -/
def closingTag (tag : String) : List Char :=
  '<' :: '/' :: (tag.toList ++ ['>'])

theorem spellAll_cons (node : Dom ι ν) (rest : List (Dom ι ν)) :
    spellAll (node :: rest) = spell node ++ spellAll rest := by
  rw [spellAll, partsAll, List.flatMap_append]
  rfl

theorem spell_element (id : ι) (tag : String) (attributes : Attributes) (log : List (LogEntry ν))
    (children : List (Dom ι ν)) :
    spell (element id tag attributes log children) =
      '<' :: (tag.toList ++ (Attributes.chars attributes.all ++
        '>' :: if isVoid tag then [] else spellAll children ++ closingTag tag)) := by
  rw [spell, parts, ← Attributes.flatMap_parts]
  split <;> simp [spellAll, closingTag]

theorem spell_text (id : ι) (value : String) : spell (text id value : Dom ι ν) = value.toList := by
  simp [spell, parts]

theorem spell_separator (id : ι) : spell (separator id : Dom ι ν) = ['<', '!', '>'] := by
  simp [spell, parts, Shell.separator]

/-- What the markup of a node begins with; an inserted node counts as an element. -/
def lead : Dom ι ν → Lead
  | element .. => .element
  | text .. => .text
  | separator _ => .separator
  | mounted .. => .element

/-- The first two characters tell the kind of a node. -/
theorem leadOf_spell {node : Dom ι ν} (hlegible : node.Legible) (hparsed : node.isParsed = true)
    (rest : List Char) : leadOf (spell node ++ rest) = node.lead := by
  cases node with
  | element id tag attributes log children =>
      rw [Legible] at hlegible
      obtain ⟨c, name, htag, hbang, hslash⟩ := exists_cons_of_isName hlegible.1
      rw [spell_element, htag]
      simp [leadOf, lead, hbang, hslash]
  | text id value =>
      rw [Legible] at hlegible
      simp only [isParsed, decide_eq_true_eq] at hparsed
      obtain ⟨c, word, hvalue⟩ := Text.exists_cons_of_ne_empty hparsed
      have hc : c ≠ '<' := by
        rintro rfl
        exact hlegible (by simp [hvalue])
      rw [spell_text, hvalue]
      simp [leadOf, lead, hc]
  | separator id =>
      rw [spell_separator]
      rfl
  | mounted id node => exact hlegible.elim

/-- The first of some siblings is parsed, and so are the others behind it. -/
theorem isParsed_of_areParsed {afterText : Bool} {node : Dom ι ν} {rest : List (Dom ι ν)}
    (h : areParsed afterText (node :: rest) = true) :
    node.isParsed = true ∧ areParsed (node.lead = .text) rest = true := by
  cases node with
  | element id tag attributes log children =>
      rw [areParsed_element, Bool.and_eq_true] at h
      exact h
  | text id value =>
      rw [areParsed_text, Bool.and_eq_true, Bool.and_eq_true] at h
      exact ⟨h.1.1, h.2⟩
  | separator id =>
      rw [areParsed_separator] at h
      exact ⟨rfl, h⟩
  | mounted id node =>
      rw [areParsed, Bool.and_eq_true] at h
      · exact h
      · simp

/-- What siblings and the closing tag behind them begin with. -/
theorem leadOf_spellAll {afterText : Bool} {nodes : List (Dom ι ν)} {rest : List Char}
    (hlegible : LegibleAll nodes) (hparsed : areParsed afterText nodes = true)
    (hrest : leadOf rest = .closing) :
    leadOf (spellAll nodes ++ rest) = (nodes.head?.map lead).getD .closing := by
  cases nodes with
  | nil => exact hrest
  | cons node more =>
      rw [LegibleAll] at hlegible
      rw [spellAll_cons, List.append_assoc,
        leadOf_spell hlegible.1 (isParsed_of_areParsed hparsed).1]
      rfl

theorem head?_of_leadOf {markup : List Char} (h : leadOf markup ≠ .text) :
    markup.head?.any (· == '<') = true := by
  unfold leadOf at h
  split at h
  · rename_i hhead
    rw [hhead]
    rfl
  · exact absurd rfl h

theorem lead_ne_closing (node : Dom ι ν) : node.lead ≠ .closing := by
  cases node <;> simp [lead]

theorem eq_separator_of_lead {node : Dom ι ν} (h : node.lead = .separator) :
    ∃ id, node = separator id := by
  cases node with
  | separator id => exact ⟨id, rfl⟩
  | element id tag attributes log children => cases h
  | text id value => cases h
  | mounted id node => cases h

theorem eq_text_of_lead {node : Dom ι ν} (h : node.lead = .text) :
    ∃ id value, node = text id value := by
  cases node with
  | text id value => exact ⟨id, value, rfl⟩
  | element id tag attributes log children => cases h
  | separator id => cases h
  | mounted id node => cases h

/-- Siblings with the same markup begin with nodes of the same kind. -/
theorem head_lead_eq {afterText : Bool} {nodes others : List (Dom ι ν)} {rest more : List Char}
    (hnodes : LegibleAll nodes) (hothers : LegibleAll others)
    (hparsed : areParsed afterText nodes = true) (hparsed' : areParsed afterText others = true)
    (hrest : leadOf rest = .closing) (hmore : leadOf more = .closing)
    (h : spellAll nodes ++ rest = spellAll others ++ more) :
    (nodes.head?.map lead).getD .closing = (others.head?.map lead).getD .closing := by
  rw [← leadOf_spellAll hnodes hparsed hrest, h, leadOf_spellAll hothers hparsed' hmore]

/-- What stands behind a text begins with a bracket. -/
theorem head?_spellAll {nodes : List (Dom ι ν)} {rest : List Char} (hnodes : LegibleAll nodes)
    (hparsed : areParsed true nodes = true) (hrest : leadOf rest = .closing) :
    (spellAll nodes ++ rest).head?.any (· == '<') = true := by
  apply head?_of_leadOf
  rw [leadOf_spellAll hnodes hparsed hrest]
  cases nodes with
  | nil => simp
  | cons node rest =>
      rw [List.head?_cons, Option.map_some, Option.getD_some]
      intro hkind
      obtain ⟨id, value, rfl⟩ := eq_text_of_lead hkind
      rw [areParsed_text] at hparsed
      simp at hparsed

mutual

/-- An element and what stands behind it can be told from the markup of both. -/
theorem spell_unique {other : Dom ι ν} {rest more : List Char} :
    ∀ {node : Dom ι ν}, node.lead = .element → other.lead = .element →
      node.Legible → other.Legible → node.isParsed = true → other.isParsed = true →
      spell node ++ rest = spell other ++ more → node.forget = other.forget ∧ rest = more
  | element id tag attributes log children, _, hlead, hnode, hother, hparsed, hparsed', h => by
      cases other with
      | text id value => cases hlead
      | separator id => cases hlead
      | mounted id node => exact hother.elim
      | element id' tag' attributes' log' children' =>
          rw [Legible] at hnode hother
          obtain ⟨hname, hattributes, hkeys, rfl, hvoid, hchildren⟩ := hnode
          obtain ⟨hname', hattributes', hkeys', rfl, hvoid', hchildren'⟩ := hother
          -- The markup is read from left to right: the tag, the attributes, the children.
          simp only [spell_element, List.cons_append, List.append_assoc, List.cons.injEq,
            true_and] at h
          obtain ⟨htag, h⟩ := Text.append_unique (not_endsName_of_mem hname)
            (not_endsName_of_mem hname')
            (Attributes.endsName_of_startsField (Attributes.startsField_chars _ rfl))
            (Attributes.endsName_of_startsField (Attributes.startsField_chars _ rfl)) h
          obtain rfl := String.toList_inj.mp htag
          obtain ⟨hall, hclose⟩ := Attributes.chars_unique
            (Attributes.legibleField_of_mem_all hattributes)
            (Attributes.legibleField_of_mem_all hattributes') rfl rfl h
          obtain rfl := Attributes.eq_of_all_eq hkeys hkeys' hall
          have hbody := (List.cons.inj hclose).2
          by_cases hempty : isVoid tag = true
          · rw [if_pos hempty, if_pos hempty] at hbody
            rw [hvoid hempty, hvoid' hempty]
            exact ⟨rfl, hbody⟩
          · -- The closing tag ends the children, and being of the same tag it can be cancelled.
            rw [if_neg hempty, if_neg hempty, List.append_assoc, List.append_assoc] at hbody
            rw [isParsed] at hparsed hparsed'
            obtain ⟨hforget, hclosing⟩ := spellAll_unique hchildren hchildren' hparsed hparsed'
              rfl rfl hbody
            rw [forget, forget, hforget]
            exact ⟨rfl, List.append_cancel_left hclosing⟩
  | text id value, hlead, _, _, _, _, _, _ => nomatch hlead
  | separator id, hlead, _, _, _, _, _, _ => nomatch hlead
  | mounted id node, _, _, hnode, _, _, _, _ => hnode.elim

/-- Siblings and the closing tag behind them can be told from the markup of both. -/
theorem spellAll_unique {afterText : Bool} {others : List (Dom ι ν)} {rest more : List Char} :
    ∀ {nodes : List (Dom ι ν)}, LegibleAll nodes → LegibleAll others →
      areParsed afterText nodes = true → areParsed afterText others = true →
      leadOf rest = .closing → leadOf more = .closing →
      spellAll nodes ++ rest = spellAll others ++ more →
        forgetAll nodes = forgetAll others ∧ rest = more
  | [], hnodes, hothers, hparsed, hparsed', hrest, hmore, h => by
      have hlead := head_lead_eq hnodes hothers hparsed hparsed' hrest hmore h
      cases others with
      | nil => exact ⟨rfl, h⟩
      | cons other others => exact absurd hlead.symm other.lead_ne_closing
  | node :: nodes, hnodes, hothers, hparsed, hparsed', hrest, hmore, h => by
      have hlead := head_lead_eq hnodes hothers hparsed hparsed' hrest hmore h
      cases others with
      | nil => exact absurd hlead node.lead_ne_closing
      | cons other others =>
          change node.lead = other.lead at hlead
          obtain ⟨hnode, hnodes⟩ := hnodes
          obtain ⟨hother, hothers⟩ := hothers
          obtain ⟨hown, hbehind⟩ := isParsed_of_areParsed hparsed
          obtain ⟨hown', hbehind'⟩ := isParsed_of_areParsed hparsed'
          rw [← hlead] at hbehind'
          rw [spellAll_cons, spellAll_cons, List.append_assoc, List.append_assoc] at h
          -- Both first nodes are of one kind, and each kind has its own way to end.
          have hfirst : node.forget = other.forget ∧
              spellAll nodes ++ rest = spellAll others ++ more := by
            cases hkind : node.lead with
            | closing => exact absurd hkind node.lead_ne_closing
            | element =>
                exact spell_unique hkind (hlead ▸ hkind) hnode hother hown hown' h
            | separator =>
                obtain ⟨id, rfl⟩ := eq_separator_of_lead hkind
                obtain ⟨id', rfl⟩ := eq_separator_of_lead (hlead ▸ hkind)
                rw [spell_separator, spell_separator] at h
                exact ⟨rfl, List.append_cancel_left h⟩
            | text =>
                obtain ⟨id, value, rfl⟩ := eq_text_of_lead hkind
                obtain ⟨id', value', rfl⟩ := eq_text_of_lead (hlead ▸ hkind)
                -- Texts are never neighbours, so what comes next is a tag, a separator or the end.
                rw [spell_text, spell_text] at h
                obtain ⟨hvalue, htail⟩ := Text.append_unique (beq_eq_false_of_notMem hnode)
                  (beq_eq_false_of_notMem hother) (head?_spellAll hnodes hbehind hrest)
                  (head?_spellAll hothers hbehind' hmore) h
                rw [forget, forget, String.toList_inj.mp hvalue]
                exact ⟨rfl, htail⟩
          obtain ⟨hforget, htail⟩ := hfirst
          obtain ⟨hforgets, hends⟩ := spellAll_unique hnodes hothers hbehind hbehind' hrest hmore
            htail
          rw [forgetAll, forgetAll, hforget, hforgets]
          exact ⟨rfl, hends⟩

end

theorem toList_markup (node : Dom ι ν) : (node.markup fun _ => "").toList = spell node := by
  rw [markup, String.toList_join]
  rfl

theorem legibleAll_append {nodes more : List (Dom ι ν)} (hnodes : LegibleAll nodes)
    (hmore : LegibleAll more) : LegibleAll (nodes ++ more) := by
  induction nodes with
  | nil => exact hmore
  | cons node rest ih => exact ⟨hnodes.1, ih hnodes.2⟩

end Dom

/-! ## Templates -/

/-- Whether the markup of a node itself keeps to the characters that are left to it. -/
def Node.isLegible : Node → Bool
  | element tag properties _ => isName tag && (Attributes.ofProperties properties).isLegible
  | text value => !value.toList.contains '<'
  | placeholder _ => true

/-- Whether the markup of all nodes of a root does. -/
def Element.isLegible (e : Element) : Bool :=
  e.sites.all (·.node.isLegible)

open Attributes in
/-- Whether a constant property has a name for its key if it is an attribute, and no quote in its
value. -/
def Property.isTidy (p : Property) : Bool :=
  match p.kind, p.value with
  | .attr, .string value => isName p.key && isQuotable value
  | .attr, .bool true => isName p.key
  | .style, .string value => isQuotable value
  | _, _ => true

/-- Whether a constant style property has no quote in its key. -/
def Property.hasQuotableStyleKey (p : Property) : Bool :=
  match p.kind, p.value with
  | .style, .string _ => Attributes.isQuotable p.key
  | _, _ => true

/-- Whether tags and the keys of attributes are names, no constant value has a quote and no text has
the beginning of a tag.  Nothing is asked of style keys. -/
def Node.isTidy : Node → Bool
  | element tag properties _ => isName tag && properties.all Property.isTidy
  | text value => !value.toList.contains '<'
  | placeholder _ => true

def Element.isTidy (e : Element) : Bool :=
  e.sites.all (·.node.isTidy)

def Node.hasQuotableStyleKeys : Node → Bool
  | element _ properties _ => properties.all Property.hasQuotableStyleKey
  | _ => true

def Element.hasQuotableStyleKeys (e : Element) : Bool :=
  e.sites.all (·.node.hasQuotableStyleKeys)

namespace Attributes

theorem isQuotable_append (first second : String) :
    isQuotable (first ++ second) = (isQuotable first && isQuotable second) := by
  simp [isQuotable, Bool.not_or]

theorem isQuotable_appendStyle {style declaration : String} (hstyle : isQuotable style = true)
    (hdeclaration : isQuotable declaration = true) :
    isQuotable (Shell.appendStyle style declaration) = true := by
  rw [Shell.appendStyle]
  split
  · exact hdeclaration
  · rw [isQuotable_append, isQuotable_append, hstyle, hdeclaration]
    rfl

/-- A merged style has a quote only if one of its declarations has. -/
theorem isQuotable_foldl {declarations : List String} {style : String}
    (hstyle : isQuotable style = true)
    (hdeclarations : ∀ declaration ∈ declarations, isQuotable declaration = true) :
    isQuotable (declarations.foldl Shell.appendStyle style) = true := by
  induction declarations generalizing style with
  | nil => exact hstyle
  | cons declaration rest ih =>
      rw [List.forall_mem_cons] at hdeclarations
      exact ih (isQuotable_appendStyle hstyle hdeclarations.1) hdeclarations.2

theorem isQuotable_declaration {p : Property} (htidy : p.isTidy = true)
    (hkey : p.hasQuotableStyleKey = true) {declaration : String}
    (h : declaration? p = some declaration) : isQuotable declaration = true := by
  unfold declaration? at h
  unfold Property.isTidy at htidy
  unfold Property.hasQuotableStyleKey at hkey
  split at h
  · rename_i hkind hvalue
    rw [hkind, hvalue] at htidy
    split at h
    · obtain rfl := Option.some.inj h
      exact (Bool.and_eq_true_iff.mp htidy).2
    · cases h
  · rename_i hkind hvalue
    simp only [hkind, hvalue] at htidy hkey
    obtain rfl := Option.some.inj h
    rw [isQuotable_append, isQuotable_append, hkey, htidy]
    rfl
  · cases h

theorem legibleField_of_isTidy {p : Property} (htidy : p.isTidy = true)
    {field : String × Option String} (h : field? p = some field) : LegibleField field := by
  unfold field? at h
  unfold Property.isTidy at htidy
  split at h
  · rename_i hkind hvalue
    rw [hkind, hvalue] at htidy
    split at h
    · cases h
    · obtain rfl := Option.some.inj h
      exact Bool.and_eq_true_iff.mp htidy
  · rename_i hkind hvalue
    rw [hkind, hvalue] at htidy
    split at h
    · cases h
    · obtain rfl := Option.some.inj h
      exact ⟨htidy, rfl⟩
  · cases h

theorem isLegible_ofProperties {properties : List Property}
    (htidy : properties.all Property.isTidy = true)
    (hkeys : properties.all Property.hasQuotableStyleKey = true) :
    (ofProperties properties).isLegible = true := by
  rw [List.all_eq_true] at htidy hkeys
  rw [isLegible, Bool.and_eq_true, List.all_eq_true]
  constructor
  · intro field hfield
    obtain ⟨p, hp, hfield⟩ := List.mem_filterMap.mp hfield
    exact Bool.and_eq_true_iff.mpr (legibleField_of_isTidy (htidy p hp) hfield)
  · refine isQuotable_foldl rfl fun declaration hdeclaration => ?_
    obtain ⟨p, hp, hdeclared⟩ := List.mem_filterMap.mp hdeclaration
    exact isQuotable_declaration (htidy p hp) (hkeys p hp) hdeclared

end Attributes

/-- A root that is tidy can be read back if its style keys have no quotes either. -/
theorem Element.isLegible_of_isTidy {e : Element} (htidy : e.isTidy = true)
    (hkeys : e.hasQuotableStyleKeys = true) : e.isLegible = true := by
  rw [isTidy, List.all_eq_true] at htidy
  rw [hasQuotableStyleKeys, List.all_eq_true] at hkeys
  rw [isLegible, List.all_eq_true]
  intro site hsite
  have hown := htidy site hsite
  have hkey := hkeys site hsite
  cases hnode : site.node with
  | element tag properties children =>
      rw [hnode] at hown hkey
      obtain ⟨htag, hproperties⟩ := Bool.and_eq_true_iff.mp hown
      exact Bool.and_eq_true_iff.mpr ⟨htag, Attributes.isLegible_ofProperties hproperties hkey⟩
  | text value =>
      rw [hnode] at hown
      exact hown
  | placeholder target => rfl

variable {ν : Type}

namespace Node

mutual

/-- The clone of a node that has a shell can be read back if the node keeps to its characters. -/
theorem legibleAll_clone (place : List Nat) (route : List String) (left : Option Node)
    {path parts : List String} :
    ∀ {node : Node}, Shell.ofNode path node = .ok parts →
      (∀ site ∈ node.sites route left, site.node.isLegible = true) →
      Dom.LegibleAll (clone place node : List (Dom NodeId ν))
  | element tag properties children, hparts, hlegible => by
      rw [sites, List.forall_mem_cons] at hlegible
      obtain ⟨hown, hbelow⟩ := hlegible
      rw [isLegible, Bool.and_eq_true] at hown
      simp only [Shell.ofNode] at hparts
      by_cases hvoid : isVoid tag = true
      · rw [if_pos hvoid] at hparts
        split at hparts
        · rename_i hempty
          obtain rfl := List.isEmpty_iff.mp hempty
          exact ⟨⟨hown.1, hown.2, Attributes.key_ne_style properties, rfl, fun _ => rfl, trivial⟩,
            trivial⟩
        · cases hparts
      · rw [if_neg hvoid] at hparts
        obtain ⟨inner, hinner, -⟩ := bind_eq_ok_iff.mp hparts
        exact ⟨⟨hown.1, hown.2, Attributes.key_ne_style properties, rfl, (absurd · hvoid),
          legibleAll_cloneAll place 0 (route ++ [tag]) none hinner hbelow⟩, trivial⟩
  | text value, _, hlegible => by
      have hown := hlegible _ (List.mem_singleton_self _)
      simp only [isLegible, Bool.not_eq_true', List.contains_eq_mem, decide_eq_false_iff_not] at hown
      exact ⟨hown, trivial⟩
  | placeholder target, _, _ => trivial

theorem legibleAll_cloneAll (place : List Nat) (index : Nat) (route : List String)
    (left : Option Node) {path parts : List String} {gap : Shell.Gap} :
    ∀ {nodes : List Node}, Shell.ofNodes path gap nodes = .ok parts →
      (∀ site ∈ sitesAll route left nodes, site.node.isLegible = true) →
      Dom.LegibleAll (cloneAll place index gap nodes : List (Dom NodeId ν))
  | [], _, _ => trivial
  | node :: rest, hparts, hlegible => by
      rw [sitesAll, List.forall_mem_append] at hlegible
      simp only [Shell.ofNodes] at hparts
      obtain ⟨own, hown, hparts⟩ := bind_eq_ok_iff.mp hparts
      obtain ⟨more, hmore, -⟩ := bind_eq_ok_iff.mp hparts
      have hseparators : Dom.LegibleAll ((gap.separators node).map
          fun _ => (.separator (.separator (place ++ [index])) : Dom NodeId ν)) := by
        rcases separators_cases (ν := ν) gap node (.separator (place ++ [index])) with
          hnone | ⟨-, hone⟩
        · rw [hnone]
          trivial
        · rw [hone]
          exact ⟨trivial, trivial⟩
      exact Dom.legibleAll_append
        (Dom.legibleAll_append hseparators (legibleAll_clone _ route left hown hlegible.1))
        (legibleAll_cloneAll place (index + 1) route (some node) hmore hlegible.2)

end

end Node

/-- The clone of a root can be read back from the markup of its shell. -/
theorem Element.legible_clone (e : Element) {shell : Shell} (hshell : Shell.ofElement e = .ok shell)
    (hlegible : e.isLegible = true) : (e.clone : Dom NodeId ν).Legible := by
  unfold Shell.ofElement at hshell
  cases hparts : Shell.ofNode [] e.toNode with
  | error path => simp [hparts, Except.map] at hshell
  | ok parts =>
      have h := Node.legibleAll_clone (ν := ν) [] [] none hparts (List.all_eq_true.mp hlegible)
      exact h.1

/-- If two roots in normal form keep to the characters that are left to their names, values, style
keys and texts, and their shells have the same markup, then the shells denote the same page. -/
theorem markup_determines_page (e other : Element) (hnormal : e.toNode.isNormal = true)
    (hnormal' : other.toNode.isNormal = true) (htidy : e.isTidy = true)
    (htidy' : other.isTidy = true) (hkeys : e.hasQuotableStyleKeys = true)
    (hkeys' : other.hasQuotableStyleKeys = true) {shell shell' : Shell}
    (hshell : Shell.ofElement e = .ok shell) (hshell' : Shell.ofElement other = .ok shell')
    (hmarkup : shell.markup = shell'.markup) :
    (e.clone : Dom NodeId ν).forget = (other.clone : Dom NodeId ν).forget := by
  have hspell : Dom.spell (e.clone : Dom NodeId ν) = Dom.spell (other.clone : Dom NodeId ν) := by
    rw [← Dom.toList_markup, ← Dom.toList_markup, e.markup_clone _ hshell,
      other.markup_clone _ hshell', hmarkup]
  have hends : Dom.spell (e.clone : Dom NodeId ν) ++ [] =
      Dom.spell (other.clone : Dom NodeId ν) ++ [] := by
    rw [hspell]
  have hlegible := Element.isLegible_of_isTidy htidy hkeys
  have hlegible' := Element.isLegible_of_isTidy htidy' hkeys'
  exact (Dom.spell_unique rfl rfl (e.legible_clone hshell hlegible)
    (other.legible_clone hshell' hlegible') (e.denotes_clone hnormal hshell).1
    (other.denotes_clone hnormal' hshell').1 hends).1

/-- A notice with an attribute, two style properties, a separator and a void element. -/
def Element.notice : Element where
  tag := "p"
  properties := [⟨.attr, "class", .string "x"⟩, ⟨.style, "color", .string "red"⟩,
    ⟨.style, "top", .string "0"⟩]
  children := [.text "a", .placeholder ⟨1⟩, .text "b", .element "br" [] []]

/-- The same notice with its style in another place and more placeholders. -/
def Element.noticeVariant : Element where
  tag := "p"
  properties := [⟨.attr, "style", .string "color:red"⟩, ⟨.attr, "class", .string "x"⟩,
    ⟨.attr, "id", .bound ⟨2⟩⟩, ⟨.style, "top", .string "0"⟩]
  children := [.placeholder ⟨5⟩, .text "a", .placeholder ⟨1⟩, .placeholder ⟨1⟩, .text "b",
    .element "br" [] [], .placeholder ⟨3⟩]

theorem notice_page_determined :
    ∃ shell shell', Shell.ofElement .notice = .ok shell ∧
      Shell.ofElement .noticeVariant = .ok shell' ∧
      shell.markup = "<p class=\"x\" style=\"color:red;top:0\">a<!>b<br></p>" ∧
      shell'.markup = shell.markup ∧
      (Element.notice.clone : Dom NodeId Nat).forget = Element.noticeVariant.clone.forget :=
  ⟨_, _, rfl, rfl, by decide, by decide,
    markup_determines_page .notice .noticeVariant (by decide) (by decide) (by decide) (by decide)
      (by decide) (by decide) rfl rfl (by decide)⟩

/-- A style and, behind the tag, what could be the rest of a style. -/
def Element.trailing : Element where
  tag := "div"
  properties := [⟨.style, "a", .string "b"⟩]
  children := [.element "p" [] [], .text ":v\">"]

/-- The same as one style, whose key ends the tag. -/
def Element.swallowing : Element where
  tag := "div"
  properties := [⟨.style, "a:b\"><p></p>", .string "v"⟩]
  children := []

/-- A style key with a quote in it gives the markup of another page. -/
theorem style_key_hides_children :
    Element.trailing.toNode.isNormal = true ∧ Element.swallowing.toNode.isNormal = true ∧
      Element.trailing.isTidy = true ∧ Element.swallowing.isTidy = true ∧
      (∃ shell shell', Shell.ofElement .trailing = .ok shell ∧
        Shell.ofElement .swallowing = .ok shell' ∧ shell.markup = shell'.markup) ∧
      (Element.trailing.clone : Dom NodeId Unit).forget ≠ Element.swallowing.clone.forget := by
  refine ⟨by decide, by decide, by decide, by decide, ⟨_, _, rfl, rfl, by decide⟩, ?_⟩
  intro hpages
  injection hpages with _ _ _ _ hchildren
  cases hchildren

-- Markup in a text is read as markup, which is why a text must keep to its characters.
example : (Shell.ofElement ⟨"p", [], [.text "<br>"]⟩).map Shell.markup =
    (Shell.ofElement ⟨"p", [], [.element "br" [] []]⟩).map Shell.markup := by
  rfl

end DomTemplate

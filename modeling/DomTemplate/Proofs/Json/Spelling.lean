import Mathlib
import DomTemplate.Proofs.Json.Scalars

/-!
# The texts of a value

A value has many texts: white space may stand between any two tokens.  `Spells` relates a value to
all of them, so that what is proved of every text of a value holds of the indented one and of the
one without any white space alike.  Numbers other than whole ones are left out.
-/

namespace DomTemplate.Json

/-! ## Depth of nesting -/

namespace Value

mutual

/-- How deep lists and objects are nested in a value. -/
def depth : Value → Nat
  | array items => depthOfItems items + 1
  | object fields => depthOfFields fields + 1
  | _ => 0

def depthOfItems : List Value → Nat
  | [] => 0
  | item :: items => max (depth item) (depthOfItems items)

def depthOfFields : List (String × Value) → Nat
  | [] => 0
  | (_, content) :: fields => max (depth content) (depthOfFields fields)

end

theorem depth_array_le_iff {items : List Value} {limit : Nat} :
    (array items).depth ≤ limit + 1 ↔ ∀ item ∈ items, item.depth ≤ limit := by
  rw [depth, Nat.add_le_add_iff_right]
  induction items with
  | nil => simp [depthOfItems]
  | cons item items ih => simp [depthOfItems, ih]

theorem depth_object_le_iff {fields : List (String × Value)} {limit : Nat} :
    (object fields).depth ≤ limit + 1 ↔ ∀ field ∈ fields, field.2.depth ≤ limit := by
  rw [depth, Nat.add_le_add_iff_right]
  induction fields with
  | nil => simp [depthOfFields]
  | cons field fields ih => simp [depthOfFields, ih]

end Value

/-! ## Spellings -/

/-- An item of a list in a text, with the white space around it. -/
structure SpelledItem where
  before : Gap
  value : Value
  text : List Char
  behind : Gap

def SpelledItem.chars (item : SpelledItem) : List Char :=
  item.before.chars ++ item.text ++ item.behind.chars

theorem SpelledItem.chars_append (item : SpelledItem) (rest : List Char) :
    item.chars ++ rest = item.before.chars ++ (item.text ++ (item.behind.chars ++ rest)) := by
  simp [chars]

/-- A field of an object in a text.  White space may stand around the key as well. -/
structure SpelledField where
  before : Gap
  key : String
  behind : Gap
  content : SpelledItem

namespace SpelledField

/-- What follows the key, up to the end of the value. -/
def tail (field : SpelledField) : List Char :=
  field.behind.chars ++ ':' :: field.content.before.chars ++ field.content.text

def chars (field : SpelledField) : List Char :=
  field.before.chars ++ writtenString field.key ++ field.tail ++ field.content.behind.chars

theorem chars_append (field : SpelledField) (rest : List Char) :
    field.chars ++ rest =
      field.before.chars ++ '"' :: (field.key.toList.flatMap writtenChar ++
        '"' :: (field.tail ++ (field.content.behind.chars ++ rest))) := by
  simp [chars, writtenString]

def entry (field : SpelledField) : String × Value :=
  (field.key, field.content.value)

end SpelledField

/-- The second is a text of the first. -/
inductive Spells : Value → List Char → Prop where
  | null : Spells .null ['n', 'u', 'l', 'l']
  | yes : Spells (.bool true) ['t', 'r', 'u', 'e']
  | no : Spells (.bool false) ['f', 'a', 'l', 's', 'e']
  | integer {n : Nat} (h : n < UInt64.size) : Spells (.integer n) (Nat.toDigits 10 n)
  | string (text : String) : Spells (.string text) (writtenString text)
  | array {items : List SpelledItem} (gap : Gap)
      (h : ∀ item ∈ items, Spells item.value item.text) :
      Spells (.array (items.map SpelledItem.value))
        ('[' :: (Text.join ',' (items.map SpelledItem.chars) ++ gap.chars ++ [']']))
  | object {fields : List SpelledField} (gap : Gap)
      (h : ∀ field ∈ fields, Spells field.content.value field.content.text) :
      Spells (.object (fields.map SpelledField.entry))
        ('\x7b' :: (Text.join ',' (fields.map SpelledField.chars) ++ gap.chars ++ ['\x7d']))

namespace Spells

theorem eq_writtenString {name : String} {text : List Char} (h : Spells (.string name) text) :
    text = writtenString name := by
  cases h
  rfl

theorem exists_items {values : List Value} {text : List Char} (h : Spells (.array values) text) :
    ∃ (items : List SpelledItem) (gap : Gap), values = items.map SpelledItem.value ∧
      (∀ item ∈ items, Spells item.value item.text) ∧
      text = '[' :: (Text.join ',' (items.map SpelledItem.chars) ++ gap.chars ++ [']']) := by
  cases h with
  | array gap h => exact ⟨_, gap, rfl, h, rfl⟩

theorem exists_fields {entries : List (String × Value)} {text : List Char}
    (h : Spells (.object entries) text) :
    ∃ (fields : List SpelledField) (gap : Gap), entries = fields.map SpelledField.entry ∧
      (∀ field ∈ fields, Spells field.content.value field.content.text) ∧
      text = '\x7b' :: (Text.join ',' (fields.map SpelledField.chars) ++ gap.chars ++
        ['\x7d']) := by
  cases h with
  | object gap h => exact ⟨_, gap, rfl, h, rfl⟩

end Spells

/-! ## The first character -/

/-- Whether a value can start with a character. -/
def startsValue (c : Char) : Bool :=
  c = 'n' || c = 't' || c = 'f' || c = '"' || c = '[' || c = '\x7b' || c.isDigit

theorem isSpace_of_startsValue {c : Char} (h : startsValue c = true) : isSpace c = false := by
  by_contra hspace
  simp only [isSpace, Bool.not_eq_false, Bool.or_eq_true, decide_eq_true_eq] at hspace
  rcases hspace with ((rfl | rfl) | rfl) | rfl <;> exact absurd h (by decide)

theorem Spells.exists_cons {v : Value} {text : List Char} (h : Spells v text) :
    ∃ c rest, text = c :: rest ∧ startsValue c = true := by
  cases h with
  | null => exact ⟨_, _, rfl, by decide⟩
  | yes => exact ⟨_, _, rfl, by decide⟩
  | no => exact ⟨_, _, rfl, by decide⟩
  | @integer n _ =>
      obtain ⟨d, digits, hdigits⟩ := List.exists_cons_of_ne_nil (Nat.toDigits_ne_nil (b := 10) (n := n))
      have hd : d.isDigit = true :=
        Nat.isDigit_of_mem_toDigits (by omega) (by omega) (hdigits ▸ List.mem_cons_self)
      exact ⟨d, digits, hdigits, by simp [startsValue, hd]⟩
  | string text => exact ⟨_, _, rfl, by decide⟩
  | array gap _ => exact ⟨_, _, rfl, by decide⟩
  | object gap _ => exact ⟨_, _, rfl, by decide⟩

/-! ## The indented text -/

/-- A value whose numbers are whole, not negative and of at most 64 bits. -/
inductive Plain : Value → Prop where
  | null : Plain .null
  | bool (b : Bool) : Plain (.bool b)
  | integer {n : Nat} (h : n < UInt64.size) : Plain (.integer n)
  | string (text : String) : Plain (.string text)
  | array {items : List Value} (h : ∀ item ∈ items, Plain item) : Plain (.array items)
  | object {fields : List (String × Value)} (h : ∀ field ∈ fields, Plain field.2) :
      Plain (.object fields)

theorem Plain.word (word : UInt32) : Plain (.integer word.toNat) :=
  .integer (Nat.lt_trans word.toNat_lt (by decide))

/-- The white space in front of what stands at a level. -/
def Gap.line (level : Nat) : Gap where
  chars := newLine level
  areSpaces := by
    intro c hc
    rcases List.mem_cons.mp hc with rfl | hc
    · rfl
    · rw [List.eq_of_mem_replicate hc]
      rfl

/-- An item on a line of its own. -/
def SpelledItem.line (level : Nat) (item : Value) : SpelledItem :=
  ⟨.line level, item, item.pretty level, .none⟩

/-- A field on a line of its own, with one space behind the colon. -/
def SpelledField.line (level : Nat) (field : String × Value) : SpelledField :=
  ⟨.line level, field.1, .none, ⟨⟨[' '], by simp [isSpace]⟩, field.2, field.2.pretty level, .none⟩⟩

theorem SpelledItem.chars_line (level : Nat) (item : Value) :
    (line level item).chars = newLine level ++ item.pretty level := by
  simp [chars, line, Gap.line, Gap.none]

theorem SpelledField.chars_line (level : Nat) (field : String × Value) :
    (line level field).chars = newLine level ++ Value.prettyField level field := by
  obtain ⟨key, content⟩ := field
  simp [chars, tail, line, Gap.line, Gap.none, Value.prettyField]

theorem join_cons (separator : Char) (piece : List Char) (more : List (List Char)) :
    Text.join separator (piece :: more) = piece ++ more.flatMap (separator :: ·) := by
  induction more generalizing piece with
  | nil => simp [Text.join]
  | cons next others ih => rw [Text.join, ih next, List.flatMap_cons, List.cons_append]; simp

theorem prettyItems_eq (level : Nat) (items : List Value) :
    Value.prettyItems level items =
      (items.map (SpelledItem.line level)).flatMap (',' :: ·.chars) := by
  induction items with
  | nil => rfl
  | cons item items ih =>
      simp [Value.prettyItems, ih, SpelledItem.chars_line]

theorem prettyFields_eq (level : Nat) (fields : List (String × Value)) :
    Value.prettyFields level fields =
      (fields.map (SpelledField.line level)).flatMap (',' :: ·.chars) := by
  induction fields with
  | nil => rfl
  | cons field fields ih =>
      simp [Value.prettyFields, ih, SpelledField.chars_line]

/-- The indented text of a value is one of its texts. -/
theorem Plain.spells_pretty {v : Value} (h : Plain v) (level : Nat) :
    Spells v (v.pretty level) := by
  induction h generalizing level with
  | null => exact .null
  | bool b => cases b with
    | true => exact .yes
    | false => exact .no
  | @integer n hn =>
      have hwritten : writtenInteger n = Nat.toDigits 10 n := by simp [writtenInteger]
      rw [Value.pretty, hwritten]
      exact .integer hn
  | string text => exact .string text
  | @array items _ ih =>
      cases items with
      | nil => exact @Spells.array [] .none (by simp)
      | cons item items =>
          have hitems : ∀ part ∈ (item :: items).map (SpelledItem.line (level + 1)),
              Spells part.value part.text := by
            simp only [List.forall_mem_map]
            exact fun part hpart => ih part hpart (level + 1)
          have hspells := Spells.array (.line level) hitems
          have hvalues : ((item :: items).map (SpelledItem.line (level + 1))).map
              SpelledItem.value = item :: items := by
            rw [List.map_map]
            exact List.map_id _
          rw [hvalues, List.map_cons, List.map_cons, join_cons, SpelledItem.chars_line] at hspells
          simpa [Value.pretty, prettyItems_eq, List.flatMap_map, Gap.line] using hspells
  | @object fields _ ih =>
      cases fields with
      | nil => exact @Spells.object [] .none (by simp)
      | cons field fields =>
          have hfields : ∀ part ∈ (field :: fields).map (SpelledField.line (level + 1)),
              Spells part.content.value part.content.text := by
            simp only [List.forall_mem_map]
            exact fun part hpart => ih part hpart (level + 1)
          have hspells := Spells.object (.line level) hfields
          have hentries : ((field :: fields).map (SpelledField.line (level + 1))).map
              SpelledField.entry = field :: fields := by
            rw [List.map_map]
            exact List.map_id _
          rw [hentries, List.map_cons, List.map_cons, join_cons, SpelledField.chars_line] at hspells
          simpa [Value.pretty, prettyFields_eq, List.flatMap_map, Gap.line] using hspells

end DomTemplate.Json

import Mathlib
import DomTemplate.Json.Reader
import DomTemplate.Proofs.Json.Spelling

/-!
# Every text of a value is read back

The loops over items and fields are treated once, for any reader of the parts.  What a reader has to
bring along is that it takes the text of a part and leaves what is behind it, as long as that cannot
be taken for the end of a number.
-/

namespace DomTemplate.Json

/-! ## Going from part to part -/

theorem nextItem_gap (first : Bool) (gap : Gap) (rest : List Char) :
    nextItem first (gap.chars ++ rest) = nextItem first rest := by
  rw [nextItem, skipSpace_gap, ← nextItem]

theorem nextItem_close (first : Bool) (gap : Gap) (rest : List Char) :
    nextItem first (gap.chars ++ ']' :: rest) = .ok (false, ']' :: rest) := by
  simp [nextItem, skipSpace_gap, skipSpace_cons, isSpace]

theorem nextItem_first (gap : Gap) {v : Value} {text : List Char} (h : Spells v text)
    (rest : List Char) : nextItem true (gap.chars ++ (text ++ rest)) = .ok (true, text ++ rest) := by
  obtain ⟨c, tail, rfl, hc⟩ := h.exists_cons
  have hclose : c ≠ ']' := by rintro rfl; exact absurd hc (by decide)
  simp [nextItem, skipSpace_gap, skipSpace_cons (isSpace_of_startsValue hc)]

theorem nextItem_later (gap : Gap) {v : Value} {text : List Char} (h : Spells v text)
    (rest : List Char) :
    nextItem false (',' :: (gap.chars ++ (text ++ rest))) = .ok (true, text ++ rest) := by
  obtain ⟨c, tail, rfl, hc⟩ := h.exists_cons
  have hclose : c ≠ ']' := by rintro rfl; exact absurd hc (by decide)
  have hcomma : isSpace ',' = false := by decide
  simp [nextItem, skipSpace_cons hcomma, skipSpace_gap,
    skipSpace_cons (isSpace_of_startsValue hc), hclose]

theorem nextKey_gap (first : Bool) (gap : Gap) (rest : List Char) :
    nextKey first (gap.chars ++ rest) = nextKey first rest := by
  rw [nextKey, skipSpace_gap, ← nextKey]

theorem nextKey_close (first : Bool) (gap : Gap) (rest : List Char) :
    nextKey first (gap.chars ++ '\x7d' :: rest) = .ok (false, '\x7d' :: rest) := by
  simp [nextKey, skipSpace_gap, skipSpace_cons, isSpace]

theorem nextKey_first (gap : Gap) (rest : List Char) :
    nextKey true (gap.chars ++ '"' :: rest) = .ok (true, rest) := by
  simp [nextKey, skipSpace_gap, skipSpace_cons, isSpace]

theorem nextKey_later (gap : Gap) (rest : List Char) :
    nextKey false (',' :: (gap.chars ++ '"' :: rest)) = .ok (true, rest) := by
  simp [nextKey, skipSpace_gap, skipSpace_cons, isSpace]

theorem colon_gap (gap : Gap) (rest : List Char) :
    colon (gap.chars ++ ':' :: rest) = .ok rest := by
  simp [colon, skipSpace_gap, skipSpace_cons, isSpace]

/-! ## What stands behind a part -/

/-- The parts after one, each behind its comma, cannot be taken for the end of a number in it. -/
theorem endsNumber_later {β : Type} (parts : List β) (chars : β → List Char) {rest : List Char}
    (h : EndsNumber rest) : EndsNumber (parts.flatMap (',' :: chars ·) ++ rest) := by
  cases parts with
  | nil => exact h
  | cons part parts => exact endsNumber_cons (by decide) _

theorem endsNumber_bracket (gap : Gap) (rest : List Char) :
    EndsNumber (gap.chars ++ ']' :: rest) :=
  endsNumber_gap gap (endsNumber_cons (by decide) rest)

theorem endsNumber_brace (gap : Gap) (rest : List Char) :
    EndsNumber (gap.chars ++ '\x7d' :: rest) :=
  endsNumber_gap gap (endsNumber_cons (by decide) rest)

theorem length_le_length_later {β : Type} (parts : List β) (chars : β → List Char) :
    parts.length ≤ (parts.flatMap (',' :: chars ·)).length := by
  induction parts with
  | nil => exact Nat.zero_le _
  | cons part parts ih =>
      rw [List.flatMap_cons, List.length_append, List.length_cons, List.length_cons]
      omega

/-- There are enough characters to count the parts by. -/
theorem length_le_length_join {β : Type} (parts : List β) (chars : β → List Char) :
    parts.length ≤ (Text.join ',' (parts.map chars)).length + 1 := by
  cases parts with
  | nil => exact Nat.zero_le _
  | cons part parts =>
      have := length_le_length_later parts chars
      rw [List.map_cons, join_cons, List.flatMap_map, List.length_append, List.length_cons]
      omega

/-! ## Lists -/

section

variable {α : Type} {item : List Char → Except Fault (α × List Char)} {parts : List SpelledItem}
  {results : List α}

/-- A reader takes the text of a part and nothing else, and makes the datum of it. -/
structure ReadAs (item : List Char → Except Fault (α × List Char)) (part : SpelledItem) (a : α) :
    Prop where
  spells : Spells part.value part.text
  read : ∀ rest, EndsNumber rest → item (part.text ++ rest) = .ok (a, rest)

theorem items_gap (fuel : Nat) (first : Bool) (gap : Gap) (rest : List Char) :
    items item fuel first (gap.chars ++ rest) = items item fuel first rest := by
  cases fuel with
  | zero => rfl
  | succ fuel => rw [items, nextItem_gap, ← items]

/-- The items after the first are read one by one, each behind its comma. -/
theorem items_later (h : List.Forall₂ (ReadAs item) parts results) (gap : Gap)
    (rest : List Char) {fuel : Nat} (hfuel : parts.length < fuel) :
    items item fuel false (parts.flatMap (',' :: ·.chars) ++ (gap.chars ++ ']' :: rest)) =
      .ok (results, ']' :: rest) := by
  induction h generalizing fuel with
  | nil =>
      obtain ⟨fuel, rfl⟩ := Nat.exists_eq_succ_of_ne_zero (Nat.ne_of_gt hfuel)
      simp [items, nextItem_close, bind, Except.bind]
  | @cons part a parts results hpart hparts ih =>
      obtain ⟨fuel, rfl⟩ := Nat.exists_eq_succ_of_ne_zero (Nat.ne_of_gt (Nat.zero_lt_of_lt hfuel))
      have hends := endsNumber_gap part.behind
        (endsNumber_later parts SpelledItem.chars (endsNumber_bracket gap rest))
      have hrest := ih (Nat.lt_of_succ_lt_succ hfuel)
      rw [List.flatMap_cons, List.append_assoc, List.cons_append, SpelledItem.chars_append, items,
        nextItem_later part.before hpart.spells]
      simp [hpart.read _ hends, items_gap, hrest, bind, Except.bind]

/-- The items of a list are read up to its closing bracket. -/
theorem items_spelled (h : List.Forall₂ (ReadAs item) parts results) (gap : Gap)
    (rest : List Char) {after : List Char}
    (hafter : after = Text.join ',' (parts.map SpelledItem.chars) ++ gap.chars ++ [']'] ++ rest) :
    items item (after.length + 1) true after = .ok (results, ']' :: rest) := by
  have hfuel : parts.length < after.length + 1 := by
    have := length_le_length_join parts SpelledItem.chars
    simp only [hafter, List.length_append, List.length_cons]
    omega
  -- From here on the fuel is any number of steps that are enough for all items.
  generalize after.length + 1 = fuel at hfuel
  obtain ⟨fuel, rfl⟩ := Nat.exists_eq_succ_of_ne_zero (Nat.ne_of_gt (Nat.zero_lt_of_lt hfuel))
  simp only [List.append_assoc, List.singleton_append] at hafter
  subst hafter
  cases h with
  | nil => simp [items, Text.join, nextItem_close, bind, Except.bind]
  | @cons part a parts results hpart hparts =>
      have hends := endsNumber_gap part.behind
        (endsNumber_later parts SpelledItem.chars (endsNumber_bracket gap rest))
      have hrest := items_later hparts gap rest (Nat.lt_of_succ_lt_succ hfuel)
      rw [List.map_cons, join_cons, List.flatMap_map, List.append_assoc, SpelledItem.chars_append,
        items, nextItem_first part.before hpart.spells]
      simp [hpart.read _ hends, items_gap, hrest, bind, Except.bind]

end

/-! ## Objects -/

section

variable {σ : Type} {field : σ → String → List Char → Except Fault (σ × List Char)}

theorem fields_gap (fuel : Nat) (first : Bool) (state : σ) (gap : Gap) (rest : List Char) :
    fields field fuel first state (gap.chars ++ rest) = fields field fuel first state rest := by
  cases fuel with
  | zero => rfl
  | succ fuel => rw [fields, nextKey_gap, ← fields]

theorem fields_close (fuel : Nat) (first : Bool) (state : σ) (gap : Gap) (rest : List Char) :
    fields field (fuel + 1) first state (gap.chars ++ '\x7d' :: rest) =
      .ok (state, '\x7d' :: rest) := by
  simp [fields, nextKey_close, bind, Except.bind]

/-- The first field: its key is read, and the rest is left to the reader of fields. -/
theorem fields_first (fuel : Nat) (state : σ) (part : SpelledField) (rest : List Char) :
    fields field (fuel + 1) true state (part.chars ++ rest) =
      (field state part.key (part.tail ++ (part.content.behind.chars ++ rest))).bind
        fun (state, rest) => fields field fuel false state rest := by
  rw [SpelledField.chars_append, fields, nextKey_first]
  simp [string_written, bind, Except.bind]

/-- A later field stands behind a comma. -/
theorem fields_later (fuel : Nat) (state : σ) (part : SpelledField) (rest : List Char) :
    fields field (fuel + 1) false state (',' :: (part.chars ++ rest)) =
      (field state part.key (part.tail ++ (part.content.behind.chars ++ rest))).bind
        fun (state, rest) => fields field fuel false state rest := by
  rw [SpelledField.chars_append, fields, nextKey_later]
  simp [string_written, bind, Except.bind]

/-- A reader of fields takes one part after the other, from a state to a later one. -/
inductive FieldRun (field : σ → String → List Char → Except Fault (σ × List Char)) :
    σ → List SpelledField → σ → Prop where
  | nil (state : σ) : FieldRun field state [] state
  | cons {state next last : σ} {part : SpelledField} {parts : List SpelledField}
      (hpart : ∀ rest, EndsNumber rest →
        field state part.key (part.tail ++ rest) = .ok (next, rest))
      (hparts : FieldRun field next parts last) : FieldRun field state (part :: parts) last

namespace FieldRun

variable {state last : σ} {parts : List SpelledField}

/-- The fields after the first are read one by one, each behind its comma. -/
theorem fields_later_eq (h : FieldRun field state parts last) (gap : Gap) (rest : List Char)
    {fuel : Nat} (hfuel : parts.length < fuel) :
    fields field fuel false state
        (parts.flatMap (',' :: ·.chars) ++ (gap.chars ++ '\x7d' :: rest)) =
      .ok (last, '\x7d' :: rest) := by
  induction h generalizing fuel with
  | nil state =>
      obtain ⟨fuel, rfl⟩ := Nat.exists_eq_succ_of_ne_zero (Nat.ne_of_gt hfuel)
      exact fields_close fuel false state gap rest
  | @cons state next last part parts hpart hparts ih =>
      obtain ⟨fuel, rfl⟩ := Nat.exists_eq_succ_of_ne_zero (Nat.ne_of_gt (Nat.zero_lt_of_lt hfuel))
      have hends := endsNumber_gap part.content.behind
        (endsNumber_later parts SpelledField.chars (endsNumber_brace gap rest))
      rw [List.flatMap_cons, List.append_assoc, List.cons_append, fields_later, hpart _ hends]
      simp [Except.bind, fields_gap, ih (Nat.lt_of_succ_lt_succ hfuel)]

/-- The fields of an object are read up to its closing brace. -/
theorem fields_eq (h : FieldRun field state parts last) (gap : Gap) (rest : List Char)
    {after : List Char}
    (hafter : after =
      Text.join ',' (parts.map SpelledField.chars) ++ gap.chars ++ ['\x7d'] ++ rest) :
    fields field (after.length + 1) true state after = .ok (last, '\x7d' :: rest) := by
  have hfuel : parts.length < after.length + 1 := by
    have := length_le_length_join parts SpelledField.chars
    simp only [hafter, List.length_append, List.length_cons]
    omega
  generalize after.length + 1 = fuel at hfuel
  obtain ⟨fuel, rfl⟩ := Nat.exists_eq_succ_of_ne_zero (Nat.ne_of_gt (Nat.zero_lt_of_lt hfuel))
  simp only [List.append_assoc, List.singleton_append] at hafter
  subst hafter
  cases h with
  | nil => exact fields_close fuel true state gap rest
  | @cons _ next _ part parts hpart hparts =>
      have hends := endsNumber_gap part.content.behind
        (endsNumber_later parts SpelledField.chars (endsNumber_brace gap rest))
      have hrest := hparts.fields_later_eq gap rest (Nat.lt_of_succ_lt_succ hfuel)
      rw [List.map_cons, join_cons, List.flatMap_map, List.append_assoc, fields_first,
        hpart _ hends]
      simp [Except.bind, fields_gap, hrest]

/-- A reader that puts each field in front of those before it has all of them in the end, the last
one first. -/
theorem collect {state : List (String × Value) → σ}
    (hfield : ∀ part ∈ parts, ∀ before rest, EndsNumber rest →
      field (state before) part.key (part.tail ++ rest) = .ok (state (part.entry :: before), rest))
    (before : List (String × Value)) :
    FieldRun field (state before) parts
      (state ((parts.map SpelledField.entry).reverse ++ before)) := by
  induction parts generalizing before with
  | nil => exact .nil _
  | cons part parts ih =>
      obtain ⟨hread, hreads⟩ := List.forall_mem_cons.mp hfield
      rw [List.map_cons, List.reverse_cons, List.append_assoc]
      exact .cons (hread before) (ih hreads (part.entry :: before))

end FieldRun

end

/-! ## Values -/

theorem value_gap (limit : Nat) (gap : Gap) (rest : List Char) :
    value limit (gap.chars ++ rest) = value limit rest := by
  rw [value.eq_def, skipSpace_gap, ← value.eq_def]

theorem addField_spelled {reader : List Char → Except Fault (Value × List Char)}
    {part : SpelledField} {rest : List Char} (before : List (String × Value))
    (h : reader (part.content.before.chars ++ (part.content.text ++ rest)) =
      .ok (part.content.value, rest)) :
    addField reader before part.key (part.tail ++ rest) = .ok (part.entry :: before, rest) := by
  simp [addField, SpelledField.tail, colon_gap, h, SpelledField.entry, bind, Except.bind]

theorem value_digit (limit : Nat) {d : Char} (hd : d.isDigit = true) (rest : List Char) :
    value limit (d :: rest) = number (d :: rest) := by
  have hne : d ≠ 'n' ∧ d ≠ 't' ∧ d ≠ 'f' ∧ d ≠ '"' ∧ d ≠ '[' ∧ d ≠ '\x7b' := by
    refine ⟨?_, ?_, ?_, ?_, ?_, ?_⟩ <;> (rintro rfl; exact absurd hd (by decide))
  have hspace : isSpace d = false := isSpace_of_startsValue (by simp [startsValue, hd])
  simp [value, skipSpace_cons hspace, hne, hd]

theorem endList_bracket (rest : List Char) : endList (']' :: rest) = .ok rest := by
  simp [endList, skipSpace_cons, isSpace]

theorem endObject_brace (rest : List Char) : endObject ('\x7d' :: rest) = .ok rest := by
  simp [endObject, skipSpace_cons, isSpace]

/-- Every text of a value is read back, provided that the reader may go deep enough. -/
theorem Spells.value_eq {v : Value} {text : List Char} (h : Spells v text) {limit : Nat}
    (hlimit : v.depth ≤ limit) {rest : List Char} (hrest : EndsNumber rest) :
    value limit (text ++ rest) = .ok (v, rest) := by
  induction h generalizing limit rest with
  | null => simp [value, skipSpace_cons, isSpace, keyword, bind, Except.bind]
  | yes => simp [value, skipSpace_cons, isSpace, keyword, bind, Except.bind]
  | no => simp [value, skipSpace_cons, isSpace, keyword, bind, Except.bind]
  | @integer n hn =>
      have hread := number_written hn hrest
      obtain ⟨d, digits, hdigits⟩ :=
        List.exists_cons_of_ne_nil (Nat.toDigits_ne_nil (b := 10) (n := n))
      have hd : d.isDigit = true :=
        Nat.isDigit_of_mem_toDigits (by omega) (by omega) (hdigits ▸ List.mem_cons_self)
      rw [hdigits, List.cons_append] at hread ⊢
      rw [value_digit limit hd, hread]
  | string text =>
      simp [value, writtenString, skipSpace_cons, isSpace, string_written, bind, Except.bind]
  | @array parts gap hspells ih =>
      obtain ⟨limit, rfl⟩ := Nat.exists_eq_succ_of_ne_zero (Nat.ne_of_gt (Nat.zero_lt_of_lt hlimit))
      have hdepth : ∀ part ∈ parts, part.value.depth ≤ limit := by
        simpa using Value.depth_array_le_iff.mp hlimit
      have hparts : List.Forall₂ (ReadAs (value limit)) parts (parts.map SpelledItem.value) := by
        rw [List.forall₂_map_right_iff, List.forall₂_same]
        exact fun part hpart =>
          ⟨hspells part hpart, fun rest hrest => ih part hpart (hdepth part hpart) hrest⟩
      have hitems := items_spelled hparts gap rest rfl
      simp only [List.cons_append, value, skipSpace_cons (c := '[') (by decide), hitems, bind,
        Except.bind, endList_bracket]
  | @object parts gap hspells ih =>
      obtain ⟨limit, rfl⟩ := Nat.exists_eq_succ_of_ne_zero (Nat.ne_of_gt (Nat.zero_lt_of_lt hlimit))
      have hdepth : ∀ part ∈ parts, part.content.value.depth ≤ limit := by
        simpa [SpelledField.entry] using Value.depth_object_le_iff.mp hlimit
      have hfield : ∀ part ∈ parts, ∀ before rest, EndsNumber rest →
          addField (value limit) (id before) part.key (part.tail ++ rest) =
            .ok (id (part.entry :: before), rest) := by
        intro part hpart before rest hrest
        apply addField_spelled
        rw [value_gap]
        exact ih part hpart (hdepth part hpart) hrest
      have hfields := (FieldRun.collect hfield []).fields_eq gap rest rfl
      simp only [id_eq, List.append_nil] at hfields
      simp only [List.cons_append, value, skipSpace_cons (c := '\x7b') (by decide), hfields, bind,
        Except.bind, endObject_brace, List.reverse_reverse]

end DomTemplate.Json

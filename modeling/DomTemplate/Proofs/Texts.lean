import Mathlib
import DomTemplate.Text.Blank
import DomTemplate.Text.Lines

/-!
# Ends, lines, pieces and words of a text

Stripping leaves what stands between the first and the last character outside a class.  The lines of
a text have no line feed, and a line feed ends the first line of a text that has none before it.
With their line feeds the lines make up the text.  Cutting a text at a separator can be undone, and
a word ends where the first item stands that it cannot have.
-/

namespace DomTemplate.Text

/-! ## Stripping -/

section

variable {p : Char → Bool}

theorem strip_sublist (p : Char → Bool) (text : List Char) : (strip p text).Sublist text := by
  have hback : (strip p text).Sublist (text.dropWhile p) := by
    rw [strip, ← List.reverse_sublist, List.reverse_reverse]
    exact List.dropWhile_sublist p
  exact hback.trans (List.dropWhile_sublist p)

theorem head?_strip_ne {c : Char} (hc : p c = true) (text : List Char) :
    (strip p text).head? ≠ some c := by
  intro hhead
  rw [strip, List.head?_reverse] at hhead
  -- What is dropped at the end leaves the first character in place, unless nothing is left.
  obtain ⟨back, hback⟩ : (text.dropWhile p).reverse.dropWhile p <:+ (text.dropWhile p).reverse :=
    List.dropWhile_suffix p
  have hfirst : (text.dropWhile p).head? = some c := by
    rw [← List.getLast?_reverse, ← hback, List.getLast?_append, hhead]
    rfl
  have hoff := List.head?_dropWhile_not p text
  rw [hfirst] at hoff
  simp [hc] at hoff

theorem getLast?_strip_ne {c : Char} (hc : p c = true) (text : List Char) :
    (strip p text).getLast? ≠ some c := by
  intro hlast
  rw [strip, List.getLast?_reverse] at hlast
  have hoff := List.head?_dropWhile_not p (text.dropWhile p).reverse
  rw [hlast] at hoff
  simp [hc] at hoff

theorem dropWhile_append_eq {left text : List Char} (hleft : ∀ c ∈ left, p c = true)
    (hhead : ∃ c, text.head? = some c ∧ p c = false) : (left ++ text).dropWhile p = text := by
  obtain ⟨c, hhead, hc⟩ := hhead
  obtain ⟨rest, rfl⟩ := List.head?_eq_some_iff.mp hhead
  rw [List.dropWhile_append_of_pos hleft, List.dropWhile_cons_of_neg (by simp [hc])]

/-- A text whose ends are outside the class is what is left of it between characters of the
class. -/
theorem strip_append {left text right : List Char} (hleft : ∀ c ∈ left, p c = true)
    (hright : ∀ c ∈ right, p c = true) (hhead : ∃ c, text.head? = some c ∧ p c = false)
    (hlast : ∃ c, text.getLast? = some c ∧ p c = false) :
    strip p (left ++ (text ++ right)) = text := by
  have hfront : ∃ c, (text ++ right).head? = some c ∧ p c = false := by
    obtain ⟨c, hhead, hc⟩ := hhead
    exact ⟨c, by rw [List.head?_append, hhead]; rfl, hc⟩
  rw [strip, dropWhile_append_eq hleft hfront, List.reverse_append,
    dropWhile_append_eq (by simpa using hright) (by simpa using hlast), List.reverse_reverse]

theorem strip_eq_self {text : List Char} (hhead : ∃ c, text.head? = some c ∧ p c = false)
    (hlast : ∃ c, text.getLast? = some c ∧ p c = false) : strip p text = text := by
  have hstrip : strip p ([] ++ (text ++ [])) = text :=
    strip_append (by simp) (by simp) hhead hlast
  rwa [List.nil_append, List.append_nil] at hstrip

end

/-! ## Lines -/

theorem dropTerminator_of_not_mem {line : List Char} (h : '\n' ∉ line) :
    dropTerminator line = line := by
  have hback : ∀ rest, line.reverse ≠ '\n' :: rest := by
    intro rest hrest
    exact h (by rw [← List.mem_reverse, hrest]; exact List.mem_cons_self)
  unfold dropTerminator
  split
  · next heq => exact absurd heq (hback _)
  · next heq => exact absurd heq (hback _)
  · rfl

theorem dropTerminator_append (front : List Char) :
    dropTerminator (front ++ ['\n']) =
      if front.getLast? = some '\r' then front.dropLast else front := by
  rcases List.eq_nil_or_concat front with rfl | ⟨init, c, rfl⟩
  · rfl
  · by_cases hc : c = '\r' <;> simp [dropTerminator, hc]

/-- A line feed stands at the end of a line or nowhere. -/
theorem mem_rawLines {text line : List Char} (h : line ∈ rawLines text) :
    ∃ front, '\n' ∉ front ∧ (line = front ∨ line = front ++ ['\n']) := by
  induction text generalizing line with
  | nil => exact absurd h List.not_mem_nil
  | cons c text ih =>
      by_cases hc : c = '\n'
      · rw [hc, rawLines] at h
        rcases List.mem_cons.mp h with rfl | h
        · exact ⟨[], List.not_mem_nil, .inr rfl⟩
        · exact ih h
      · have hcons : ∀ {front : List Char}, '\n' ∉ front → '\n' ∉ c :: front := fun hfront =>
          mt List.mem_cons.mp (not_or.mpr ⟨Ne.symm hc, hfront⟩)
        rw [rawLines.eq_3 _ _ hc] at h
        split at h
        · exact ⟨[c], hcons List.not_mem_nil, .inl (List.mem_singleton.mp h)⟩
        · next first more hmore =>
          rcases List.mem_cons.mp h with rfl | h
          · obtain ⟨front, hfront, rfl | rfl⟩ := ih (hmore ▸ List.mem_cons_self)
            · exact ⟨c :: first, hcons hfront, .inl rfl⟩
            · exact ⟨c :: front, hcons hfront, .inr rfl⟩
          · exact ih (hmore ▸ List.mem_cons_of_mem _ h)

theorem lineFeed_not_mem_of_mem_lines {text line : List Char} (h : line ∈ lines text) :
    '\n' ∉ line := by
  obtain ⟨raw, hraw, rfl⟩ := List.mem_map.mp h
  obtain ⟨front, hfront, rfl | rfl⟩ := mem_rawLines hraw
  · rwa [dropTerminator_of_not_mem hfront]
  · rw [dropTerminator_append]
    split
    · exact fun hmem => hfront (List.mem_of_mem_dropLast hmem)
    · exact hfront

theorem rawLines_append {line : List Char} (hline : '\n' ∉ line) (rest : List Char) :
    rawLines (line ++ '\n' :: rest) = (line ++ ['\n']) :: rawLines rest := by
  induction line with
  | nil => rfl
  | cons c line ih =>
      obtain ⟨hc, hline⟩ := not_or.mp (mt List.mem_cons.mpr hline)
      rw [List.cons_append, rawLines.eq_3 _ _ (Ne.symm hc), ih hline]
      rfl

theorem rawLines_of_not_mem {text : List Char} (h : '\n' ∉ text) (hne : text ≠ []) :
    rawLines text = [text] := by
  induction text with
  | nil => exact absurd rfl hne
  | cons c text ih =>
      obtain ⟨hc, htext⟩ := not_or.mp (mt List.mem_cons.mpr h)
      rw [rawLines.eq_3 _ _ (Ne.symm hc)]
      cases text with
      | nil => rfl
      | cons d text => rw [ih htext (List.cons_ne_nil d text)]

/-- A text is a last line without a line feed, or has a first line with one. -/
theorem lines_induction {motive : List Char → Prop} (last : ∀ text, '\n' ∉ text → motive text)
    (line : ∀ front rest, '\n' ∉ front → motive rest → motive (front ++ '\n' :: rest))
    (text : List Char) : motive text := by
  by_cases hfeed : '\n' ∈ text
  · obtain ⟨front, rest, hcut, hfront⟩ := List.eq_append_cons_of_mem hfeed
    have hshorter : rest.length < text.length := by
      rw [hcut, List.length_append, List.length_cons]
      omega
    exact hcut ▸ line front rest hfront (lines_induction last line rest)
  · exact last text hfeed
termination_by text.length

theorem flatten_rawLines (text : List Char) : (rawLines text).flatten = text := by
  induction text using lines_induction with
  | last text h =>
      by_cases hne : text = []
      · rw [hne, rawLines, List.flatten_nil]
      · rw [rawLines_of_not_mem h hne, List.flatten_singleton]
  | line front rest hfront ih =>
      rw [rawLines_append hfront, List.flatten_cons, ih, List.append_assoc, List.singleton_append]

theorem lines_append {line : List Char} (hline : '\n' ∉ line) (hend : line.getLast? ≠ some '\r')
    (rest : List Char) : lines (line ++ '\n' :: rest) = line :: lines rest := by
  rw [lines, rawLines_append hline, List.map_cons, dropTerminator_append, if_neg hend]
  rfl

/-! ## Halves and pieces -/

section

variable {α : Type} [DecidableEq α] {separator : α}

theorem splitOnce_append_of_not_mem {before : List α} (h : separator ∉ before) (after : List α) :
    splitOnce separator (before ++ separator :: after) = some (before, after) := by
  induction before with
  | nil => simp [splitOnce]
  | cons c before ih =>
      obtain ⟨hc, hbefore⟩ := not_or.mp (mt List.mem_cons.mpr h)
      rw [List.cons_append, splitOnce, if_neg (Ne.symm hc), ih hbefore]
      rfl

theorem splitOnce_eq (separator : α) (text : List α) :
    splitOnce separator text = if separator ∈ text then
      some (text.takeWhile (· ≠ separator), (text.dropWhile (· ≠ separator)).tail) else none := by
  induction text with
  | nil => rfl
  | cons c text ih =>
      rw [splitOnce, ih]
      by_cases hc : c = separator
      · simp [hc]
      · by_cases hmem : separator ∈ text <;> simp [hc, hmem, Ne.symm hc]

theorem splitOnce_append {text before after : List α}
    (h : splitOnce separator text = some (before, after)) :
    text = before ++ separator :: after := by
  induction text generalizing before with
  | nil => exact absurd h (by simp [splitOnce])
  | cons c rest ih =>
      rw [splitOnce] at h
      split_ifs at h with hc
      · obtain ⟨rfl, rfl⟩ := Prod.mk.inj (Option.some.inj h)
        rw [hc]
        rfl
      · obtain ⟨⟨start, tail⟩, hstart, hpair⟩ := Option.map_eq_some_iff.mp h
        obtain ⟨rfl, rfl⟩ := Prod.mk.inj hpair
        rw [ih hstart]
        rfl

theorem pieces_append_separator (separator : α) (first second : List α) :
    pieces separator (first ++ separator :: second) =
      pieces separator first ++ pieces separator second := by
  induction first with
  | nil => simp [pieces]
  | cons c first ih =>
      rw [List.cons_append, pieces, ih, pieces]
      split
      · rfl
      · cases hpieces : pieces separator first with
        | nil => exact absurd hpieces (pieces_ne_nil separator first)
        | cons piece more => rfl

theorem pieces_of_not_mem {text : List α} (h : separator ∉ text) :
    pieces separator text = [text] := by
  induction text with
  | nil => rfl
  | cons c text ih =>
      obtain ⟨hc, htext⟩ := not_or.mp (mt List.mem_cons.mpr h)
      rw [pieces, if_neg (Ne.symm hc), ih htext]

theorem not_mem_of_mem_pieces {text piece : List α}
    (h : piece ∈ pieces separator text) : separator ∉ piece := by
  induction text generalizing piece with
  | nil => simp_all [pieces]
  | cons c text ih =>
      rw [pieces] at h
      split at h
      · rcases List.mem_cons.mp h with rfl | hmem
        · exact List.not_mem_nil
        · exact ih hmem
      · next hc =>
        cases hpieces : pieces separator text with
        | nil => exact absurd hpieces (pieces_ne_nil separator text)
        | cons first more =>
            simp only [hpieces] at h ih
            rcases List.mem_cons.mp h with rfl | hmem
            · exact mt List.mem_cons.mp (not_or.mpr ⟨Ne.symm hc, ih List.mem_cons_self⟩)
            · exact ih (List.mem_cons_of_mem _ hmem)

theorem pieces_join {parts : List (List α)} (hne : parts ≠ [])
    (hparts : ∀ part ∈ parts, separator ∉ part) :
    pieces separator (join separator parts) = parts := by
  induction parts with
  | nil => exact absurd rfl hne
  | cons part rest ih =>
      obtain ⟨hpart, hrest⟩ := List.forall_mem_cons.mp hparts
      cases rest with
      | nil => rw [join, pieces_of_not_mem hpart]
      | cons next more =>
          rw [join, pieces_append_separator, pieces_of_not_mem hpart, ih (by simp) hrest]
          · rfl
          · simp

end

/-! ## Words -/

/-- Two words that are followed by an item which neither of them has are told apart by it. -/
theorem append_unique {α : Type} {stops : α → Bool} {word other rest more : List α}
    (hword : ∀ c ∈ word, stops c = false) (hother : ∀ c ∈ other, stops c = false)
    (hrest : rest.head?.any stops = true) (hmore : more.head?.any stops = true)
    (h : word ++ rest = other ++ more) : word = other ∧ rest = more := by
  induction word generalizing other with
  | nil =>
      cases other with
      | nil => exact ⟨rfl, h⟩
      | cons c other =>
          -- The other word would begin with an item that ends words.
          rw [List.nil_append] at h
          simp [h, hother c List.mem_cons_self] at hrest
  | cons c word ih =>
      cases other with
      | nil =>
          rw [List.nil_append] at h
          simp [← h, hword c List.mem_cons_self] at hmore
      | cons d other =>
          obtain ⟨rfl, htail⟩ := List.cons.inj h
          obtain ⟨rfl, heq⟩ := ih (fun x hx => hword x (List.mem_cons_of_mem _ hx))
            (fun x hx => hother x (List.mem_cons_of_mem _ hx)) htail
          exact ⟨rfl, heq⟩

theorem exists_cons_of_ne_empty {text : String} (h : text ≠ "") :
    ∃ c rest, text.toList = c :: rest := by
  cases hchars : text.toList with
  | nil => exact absurd (String.toList_eq_nil_iff.mp hchars) h
  | cons c rest => exact ⟨c, rest, rfl⟩

end DomTemplate.Text

import Mathlib
import DomTemplate.Proofs.Bytes
import DomTemplate.Proofs.Texts
import DomTemplate.Source

/-!
# Lines, columns and bytes

A byte of a text has a line and a column, both counted from 1: the line tells how many line feeds
stand before the byte, and the column how far it is from the last of them.  The span of that line
and column is the byte itself, in the middle of a character as well.  A line and a column that no
byte has still give a span in the text, which is empty only at the end.
-/

namespace DomTemplate

namespace Text

/-! ## Bytes -/

/-- The byte of a line feed. -/
def lineFeed : UInt8 := 10

theorem length_charBytes (text : List Char) : (charBytes text).length = byteLength text := by
  induction text with
  | nil => rfl
  | cons c text ih =>
      rw [charBytes_cons, List.length_append, ih, String.length_utf8EncodeChar, byteLength]

theorem byteLength_toList (source : String) : byteLength source.toList = source.utf8ByteSize := by
  rw [← length_charBytes, ← bytes_eq]
  exact Array.length_toList

theorem lineFeed_not_mem_charBytes {text : List Char} (h : '\n' ∉ text) :
    lineFeed ∉ charBytes text := by
  intro hmem
  obtain ⟨c, hc, hbyte⟩ := List.mem_flatMap.mp hmem
  -- No byte of another character looks like a line feed.
  have hvalue : lineFeed.toNat = c.toNat := toNat_eq_of_mem_encode (by decide) hbyte
  exact h ((Char.ext (UInt32.toNat_inj.mp hvalue) : '\n' = c) ▸ hc)

theorem charBytes_lineFeed (front rest : List Char) :
    charBytes (front ++ '\n' :: rest) = charBytes front ++ lineFeed :: charBytes rest := by
  rw [charBytes_append]
  rfl

/-! ## Positions -/

/-- The line of the byte with the given index. -/
def lineAt (bytes : List UInt8) (index : Nat) : Nat :=
  1 + (bytes.take index).count lineFeed

/-- The column of the byte with the given index: only what stands behind the last line feed
counts. -/
def columnAt (bytes : List UInt8) (index : Nat) : Nat :=
  1 + ((bytes.take index).rtakeWhile (· ≠ lineFeed)).length

section

variable {line : List UInt8} (hline : lineFeed ∉ line)

include hline

theorem lineAt_first (rest : List UInt8) {index : Nat} (hindex : index ≤ line.length) :
    lineAt (line ++ rest) index = 1 := by
  rw [lineAt, List.take_append_of_le_length hindex,
    List.count_eq_zero_of_not_mem fun h => hline (List.mem_of_mem_take h)]

theorem columnAt_first (rest : List UInt8) {index : Nat} (hindex : index ≤ line.length) :
    columnAt (line ++ rest) index = 1 + index := by
  have hall : ∀ b ∈ line.take index, decide (b ≠ lineFeed) = true := by
    intro b hb
    exact decide_eq_true fun heq => hline (heq ▸ List.mem_of_mem_take hb)
  rw [columnAt, List.take_append_of_le_length hindex, List.rtakeWhile_eq_self_iff.mpr hall,
    List.length_take_of_le hindex]

theorem lineAt_later (rest : List UInt8) (index : Nat) :
    lineAt (line ++ lineFeed :: rest) (line.length + (1 + index)) = 1 + lineAt rest index := by
  rw [lineAt, lineAt, List.take_length_add_append, Nat.add_comm 1 index, List.take_succ_cons,
    List.count_append, List.count_eq_zero_of_not_mem hline, List.count_cons_self]
  omega

end

/-- A column does not depend on earlier lines. -/
theorem columnAt_later (line rest : List UInt8) (index : Nat) :
    columnAt (line ++ lineFeed :: rest) (line.length + (1 + index)) = columnAt rest index := by
  have hstop : ∀ behind : List UInt8, (line ++ lineFeed :: behind).rtakeWhile (· ≠ lineFeed) =
      behind.rtakeWhile (· ≠ lineFeed) := by
    intro behind
    rw [List.rtakeWhile, List.rtakeWhile, List.reverse_append, List.reverse_cons, List.append_assoc,
      List.singleton_append, List.takeWhile_append, List.takeWhile_cons_of_neg (by simp)]
    split
    · next hall => rw [List.append_nil, (List.takeWhile_sublist _).eq_of_length hall]
    · rfl
  rw [columnAt, columnAt, List.take_length_add_append, Nat.add_comm 1 index, List.take_succ_cons,
    hstop]

end Text

/-! ## Offsets -/

namespace Span

theorem offset_le (line column : Nat) (lines : List (List Char)) :
    offset line column lines ≤ Text.byteLength lines.flatten := by
  induction lines generalizing line with
  | nil => exact Nat.zero_le _
  | cons first rest ih =>
      rw [offset, List.flatten_cons, Text.byteLength_append]
      split
      · omega
      · have := ih (line - 1)
        omega

/-- A column of the only line. -/
theorem offset_rawLines_of_not_mem {text : List Char} (h : '\n' ∉ text) (column : Nat) :
    offset 1 column (Text.rawLines text) = min (column - 1) (Text.byteLength text) := by
  by_cases hne : text = []
  · rw [hne, Text.rawLines, offset, Text.byteLength, Nat.min_zero]
  · rw [Text.rawLines_of_not_mem h hne, offset, if_pos rfl]

/-- The offset of the line and the column of a byte is the index of the byte. -/
theorem offset_lineAt_columnAt (text : List Char) {index : Nat}
    (hindex : index ≤ Text.byteLength text) :
    offset (Text.lineAt (Text.charBytes text) index) (Text.columnAt (Text.charBytes text) index)
      (Text.rawLines text) = index := by
  induction text using Text.lines_induction generalizing index with
  | last text h =>
      have hline := Text.lineFeed_not_mem_charBytes h
      rw [← Text.length_charBytes] at hindex
      have hfirst := Text.lineAt_first hline [] hindex
      have hcolumn := Text.columnAt_first hline [] hindex
      rw [List.append_nil] at hfirst hcolumn
      rw [hfirst, hcolumn, offset_rawLines_of_not_mem h, ← Text.length_charBytes]
      omega
  | line front rest hfront ih =>
      have hline := Text.lineFeed_not_mem_charBytes hfront
      have hlength : Text.byteLength (front ++ ['\n']) = (Text.charBytes front).length + 1 := by
        rw [Text.byteLength_append, Text.length_charBytes]
        rfl
      rw [Text.rawLines_append hfront, Text.charBytes_lineFeed, offset, hlength]
      rcases Nat.lt_or_ge (Text.charBytes front).length index with hlt | hle
      · obtain ⟨later, rfl⟩ : ∃ later, index = (Text.charBytes front).length + (1 + later) :=
          ⟨index - (Text.charBytes front).length - 1, by omega⟩
        have hrest : later ≤ Text.byteLength rest := by
          rw [List.append_cons, Text.byteLength_append, hlength] at hindex
          omega
        have hbelow : 1 + Text.lineAt (Text.charBytes rest) later ≠ 1 := by
          rw [Text.lineAt]
          omega
        rw [Text.lineAt_later hline, Text.columnAt_later, if_neg hbelow, Nat.add_sub_cancel_left,
          ih hrest]
        omega
      · -- The line feed itself belongs to the line that it ends.
        rw [Text.lineAt_first hline _ hle, Text.columnAt_first hline _ hle, if_pos rfl]
        omega

/-! ## Spans -/

/-- A span of one byte in a text of the given length, or an empty one at the end of the text. -/
structure PointsInto (span : Span) (length : Nat) : Prop where
  start_le_stop : span.start.toNat ≤ span.stop.toNat
  stop_le_length : span.stop.toNat ≤ length
  stop_le_next : span.stop.toNat ≤ span.start.toNat + 1
  start_eq_of_empty : span.stop = span.start → span.start.toNat = length

theorem toNat_min (a b : UInt32) : (min a b).toNat = min a.toNat b.toNat := by
  change (if a ≤ b then a else b).toNat = _
  split
  · next hle => rw [Nat.min_eq_left (UInt32.le_iff_toNat_le.mp hle)]
  · next hlt =>
    rw [UInt32.le_iff_toNat_le] at hlt
    rw [Nat.min_eq_right (Nat.le_of_not_le hlt)]

theorem toNat_max (a b : UInt32) : (max a b).toNat = max a.toNat b.toNat := by
  change (if a ≤ b then b else a).toNat = _
  split
  · next hle => rw [Nat.max_eq_right (UInt32.le_iff_toNat_le.mp hle)]
  · next hlt =>
    rw [UInt32.le_iff_toNat_le] at hlt
    rw [Nat.max_eq_left (Nat.le_of_not_le hlt)]

theorem offset_rawLines_le (source : String) (line column : Nat) :
    offset line column (Text.rawLines source.toList) ≤ source.utf8ByteSize := by
  have hle := offset_le line column (Text.rawLines source.toList)
  rwa [Text.flatten_rawLines, Text.byteLength_toList] at hle

section

variable {source : String} (hshort : source.utf8ByteSize < 2 ^ 32 - 1)

include hshort

/-- In a text whose offsets are words, the start of a span is its offset. -/
theorem toNat_start (line column : Nat) :
    (atLineColumn source line column).start.toNat =
      offset line column (Text.rawLines source.toList) := by
  have hle := offset_rawLines_le source line column
  rw [atLineColumn, UInt32.toNat_ofNat_of_lt' (by simp only [UInt32.size]; omega)]

theorem toNat_stop (line column : Nat) :
    (atLineColumn source line column).stop.toNat =
      min ((atLineColumn source line column).start.toNat + 1) source.utf8ByteSize := by
  have hle := offset_rawLines_le source line column
  have hstart := toNat_start hshort line column
  have hlength : (UInt32.ofNat source.utf8ByteSize).toNat = source.utf8ByteSize :=
    UInt32.toNat_ofNat_of_lt' (by simp only [UInt32.size]; omega)
  have hstop : (atLineColumn source line column).stop =
      max (min ((atLineColumn source line column).start + 1) (UInt32.ofNat source.utf8ByteSize))
        (atLineColumn source line column).start := rfl
  have hone : (1 : UInt32).toNat = 1 := rfl
  rw [hstop, toNat_max, toNat_min, UInt32.toNat_add, hlength, hone]
  -- The next offset is a word as well, so that nothing wraps around.
  omega

theorem pointsInto_atLineColumn (line column : Nat) :
    (atLineColumn source line column).PointsInto source.utf8ByteSize := by
  have hle := offset_rawLines_le source line column
  have hstart := toNat_start hshort line column
  have hstop := toNat_stop hshort line column
  refine ⟨by omega, by omega, by omega, fun hempty => ?_⟩
  rw [hempty] at hstop
  omega

end

end Span

theorem span_of_parseTemplate_error {source : String} {diagnostic : Diagnostic}
    (h : parseTemplate source = .error diagnostic) :
    ∃ line column, diagnostic.span = some (.atLineColumn source line column) := by
  unfold parseTemplate at h
  split at h
  · exact absurd h (by simp)
  · obtain rfl := Except.error.inj h
    exact ⟨_, _, rfl⟩

/-- The span of the line and the column of a byte is that byte, or empty at the end of the text.
Any line and column give a span in the text, and so does every template that cannot be read. -/
theorem atLineColumn_inverts_positions (source : String)
    (hshort : source.utf8ByteSize < 2 ^ 32 - 1) :
    (∀ index ≤ source.utf8ByteSize,
      let bytes := source.toUTF8.data.toList
      let span := Span.atLineColumn source (Text.lineAt bytes index) (Text.columnAt bytes index)
      span.start.toNat = index ∧ span.stop.toNat = min (index + 1) source.utf8ByteSize) ∧
    (∀ line column, (Span.atLineColumn source line column).PointsInto source.utf8ByteSize) ∧
    ∀ diagnostic, parseTemplate source = .error diagnostic →
      ∃ span, diagnostic.span = some span ∧ span.PointsInto source.utf8ByteSize := by
  refine ⟨fun index hindex => ?_, Span.pointsInto_atLineColumn hshort, fun diagnostic herror => ?_⟩
  · intro bytes span
    have hstart : span.start.toNat = index := by
      rw [← Text.byteLength_toList] at hindex
      have hoffset := Span.offset_lineAt_columnAt source.toList hindex
      rwa [← Text.bytes_eq, ← Span.toNat_start hshort] at hoffset
    exact ⟨hstart, hstart ▸ Span.toNat_stop hshort _ _⟩
  · obtain ⟨line, column, hspan⟩ := span_of_parseTemplate_error herror
    exact ⟨_, hspan, Span.pointsInto_atLineColumn hshort line column⟩

/-- A template that breaks off within a text, with a character of two bytes in its last line. -/
def brokenOff : String := "\x7b\n\"é"

theorem atLineColumn_brokenOff :
    brokenOff.utf8ByteSize = 5 ∧
      (let span := Span.atLineColumn brokenOff 2 3
      span.start.toNat = 4 ∧ span.stop.toNat = 5) ∧
      (Span.atLineColumn brokenOff 0 7).PointsInto 5 ∧
      ∃ diagnostic span, parseTemplate brokenOff = .error diagnostic ∧
        diagnostic.span = some span ∧ span.PointsInto 5 := by
  have hlength : brokenOff.utf8ByteSize = 5 := by decide +kernel
  have hposition : Text.lineAt brokenOff.toUTF8.data.toList 4 = 2 ∧
      Text.columnAt brokenOff.toUTF8.data.toList 4 = 3 := by decide +kernel
  obtain ⟨hbyte, hany, hfault⟩ := atLineColumn_inverts_positions brokenOff (by rw [hlength]; decide)
  have hspan := hbyte 4 (by rw [hlength]; decide)
  simp only [hposition, hlength] at hspan
  obtain ⟨diagnostic, herror⟩ : ∃ diagnostic, parseTemplate brokenOff = .error diagnostic :=
    ⟨_, rfl⟩
  obtain ⟨span, hspan', hinside⟩ := hfault diagnostic herror
  exact ⟨hlength, hspan, hlength ▸ hany 0 7, diagnostic, span, herror, hspan', hlength ▸ hinside⟩

end DomTemplate

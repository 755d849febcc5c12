import DomTemplate.Text.Lines

/-!
# Byte ranges in a source text
-/

namespace DomTemplate

/-- The bytes from `start` up to, and without, `stop`.  Offsets are words, which is enough for texts
of less than four gigabytes. -/
structure Span where
  start : UInt32
  stop : UInt32
deriving DecidableEq

namespace Span

/-- The offset of a column in a line, counted in bytes, with both counted from 1.  A column beyond
the end of its line stands for the end of that line; a line that does not exist, for the end of the
text. -/
def offset (line column : Nat) : List (List Char) → Nat
  | [] => 0
  | first :: rest =>
    if line = 1 then min (column - 1) (Text.byteLength first)
    else Text.byteLength first + offset (line - 1) column rest

/-- The one byte at a line and column, or nothing at the end of the text. -/
def atLineColumn (source : String) (line column : Nat) : Span :=
  let start := UInt32.ofNat (offset line column (Text.rawLines source.toList))
  ⟨start, max (min (start + 1) (UInt32.ofNat source.utf8ByteSize)) start⟩

end Span

end DomTemplate

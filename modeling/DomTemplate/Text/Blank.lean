/-!
# Blank characters and trimming

Blank means the Unicode property White_Space.  Texts are lists of characters here, so that trimming
is two uses of `dropWhile`.
-/

namespace DomTemplate.Text

/-- The ranges of the White_Space property. -/
def blankRanges : List (Nat × Nat) :=
  [(0x09, 0x0d), (0x20, 0x20), (0x85, 0x85), (0xa0, 0xa0), (0x1680, 0x1680), (0x2000, 0x200a),
    (0x2028, 0x2029), (0x202f, 0x202f), (0x205f, 0x205f), (0x3000, 0x3000)]

def isBlank (c : Char) : Bool :=
  blankRanges.any fun range => range.1 ≤ c.toNat && c.toNat ≤ range.2

/-- Drops the longest runs of characters in the class `p` from both ends. -/
def strip (p : Char → Bool) (text : List Char) : List Char :=
  ((text.dropWhile p).reverse.dropWhile p).reverse

def trim (text : List Char) : List Char :=
  strip isBlank text

/-- Drops every double quote at either end. -/
def unquote (text : List Char) : List Char :=
  strip (· == '"') text

end DomTemplate.Text

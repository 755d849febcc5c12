/-!
# Bytes and texts

A name on a disk is a string of bytes, which need not be text.  Where it is shown or becomes part of
a text, whatever is not UTF-8 in it is replaced: a byte that begins no character, or the beginning of
a character that breaks off, with all of its bytes as one.
-/

namespace DomTemplate.Text

/-- The bytes of a text in UTF-8. -/
def bytes (text : String) : List UInt8 :=
  text.toUTF8.data.toList

/-- The text of some bytes, if they are UTF-8. -/
def ofBytes? (bytes : List UInt8) : Option String :=
  String.fromUTF8? bytes.toByteArray

/-- The character at the beginning of some bytes, if there is one. -/
def front? (bytes : List UInt8) : Option Char :=
  bytes.toByteArray.utf8DecodeChar? 0

/-- What the bytes behind the first one of a character have to be: the least and the greatest byte
for each of them.  A byte that begins no character has none behind it. -/
def tailBounds (first : UInt8) : List (UInt8 × UInt8) :=
  if first < 0xc2 then []
  else if first < 0xe0 then [(0x80, 0xbf)]
  else if first = 0xe0 then [(0xa0, 0xbf), (0x80, 0xbf)]
  else if first = 0xed then [(0x80, 0x9f), (0x80, 0xbf)]
  else if first < 0xf0 then [(0x80, 0xbf), (0x80, 0xbf)]
  else if first = 0xf0 then [(0x90, 0xbf), (0x80, 0xbf), (0x80, 0xbf)]
  else if first < 0xf4 then [(0x80, 0xbf), (0x80, 0xbf), (0x80, 0xbf)]
  else if first = 0xf4 then [(0x80, 0x8f), (0x80, 0xbf), (0x80, 0xbf)]
  else []

/-- How many bytes are within their bounds before one is not. -/
def countWithin : List (UInt8 × UInt8) → List UInt8 → Nat
  | (least, greatest) :: bounds, byte :: rest =>
    if least ≤ byte && byte ≤ greatest then countWithin bounds rest + 1 else 0
  | _, _ => 0

/-- What stands for bytes that are not UTF-8. -/
def replacement : Char := Char.ofNat 0xfffd

/-- The characters of some bytes, of which the first `done` have been read. -/
def lossyChars (done : Nat) : List UInt8 → List Char
  | [] => []
  | first :: rest =>
    match done with
    | done + 1 => lossyChars done rest
    | 0 =>
      match front? (first :: rest) with
      | some c => c :: lossyChars (c.utf8Size - 1) rest
      | none => replacement :: lossyChars (countWithin (tailBounds first) rest) rest

/-- The text of some bytes, with a replacement for what is not UTF-8. -/
def lossy (bytes : List UInt8) : String :=
  String.ofList (lossyChars 0 bytes)

end DomTemplate.Text

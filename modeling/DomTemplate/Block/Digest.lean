import DomTemplate.Block.Basic
import DomTemplate.Digest.Blake3

/-!
# The content hash of a block

The hash is taken over a byte form of the encoded block in which every list and every text is
preceded by its length, so that no two blocks have the same byte form.
-/

namespace DomTemplate

/-- A number as `width` bytes, the lowest first. -/
def littleEndian : Nat → Nat → List UInt8
  | 0, _ => []
  | width + 1, n => UInt8.ofNat n :: littleEndian width (n / 256)

namespace EncodedBlock

def wordBytes (word : UInt32) : List UInt8 :=
  littleEndian 4 word.toNat

def lengthBytes (length : Nat) : List UInt8 :=
  littleEndian 8 length

def wordListBytes (words : List UInt32) : List UInt8 :=
  lengthBytes words.length ++ words.flatMap wordBytes

def textBytes (text : String) : List UInt8 :=
  lengthBytes text.utf8ByteSize ++ text.toUTF8.data.toList

def textListBytes (texts : List String) : List UInt8 :=
  lengthBytes texts.length ++ texts.flatMap textBytes

/-- A tag and a list of chunks are told apart by a leading byte. -/
def shellBytes : Shell → List UInt8
  | .tag name => 0 :: textBytes name
  | .chunks parts => 1 :: textListBytes parts

/-- The byte form of a block. -/
def bytes (block : EncodedBlock) : List UInt8 :=
  wordBytes block.flags ++ shellBytes block.shell ++ wordListBytes block.binds ++
    wordListBytes block.mounts ++ wordListBytes block.walk ++ textListBytes block.keys ++
    wordListBytes block.inputs

/-- The content hash in base sixteen. -/
def contentHash (block : EncodedBlock) : String :=
  Digest.Blake3.hexHash block.bytes

end EncodedBlock

end DomTemplate

/-!
# BLAKE3

The unkeyed BLAKE3 hash of a list of bytes.  The input is cut into chunks of 1024 bytes, each chunk
is compressed block by block, and the chunks are the leaves of a binary tree whose left subtrees are
full.  Every node of the tree is first described by the arguments of its last compression, because
the root is compressed with a flag of its own.
-/

namespace DomTemplate.Digest.Blake3

/-- A chaining value. -/
abbrev Chain := Vector UInt32 8

/-- The sixteen words of a message block, or of the state of a compression. -/
abbrev Words := Vector UInt32 16

def initial : Chain :=
  #v[0x6a09e667, 0xbb67ae85, 0x3c6ef372, 0xa54ff53a, 0x510e527f, 0x9b05688c, 0x1f83d9ab, 0x5be0cd19]

/-- The order in which the next round takes the message words. -/
def schedule : Vector (Fin 16) 16 :=
  #v[2, 6, 3, 10, 7, 0, 4, 13, 1, 11, 12, 5, 9, 14, 15, 8]

def chunkStart : UInt32 := 1
def chunkEnd : UInt32 := 2
def parentNode : UInt32 := 4
def rootNode : UInt32 := 8

def rotateRight (word amount : UInt32) : UInt32 :=
  word >>> amount ||| word <<< (32 - amount)

/-- Mixes two message words into four words of the state. -/
def mix (state : Words) (a b c d : Fin 16) (x y : UInt32) : Words :=
  let wa := state.get a + state.get b + x
  let wd := rotateRight (state.get d ^^^ wa) 16
  let wc := state.get c + wd
  let wb := rotateRight (state.get b ^^^ wc) 12
  let wa := wa + wb + y
  let wd := rotateRight (wd ^^^ wa) 8
  let wc := wc + wd
  let wb := rotateRight (wb ^^^ wc) 7
  (((state.set a.val wa a.isLt).set b.val wb b.isLt).set c.val wc c.isLt).set d.val wd d.isLt

/-- Mixes a message block into the columns and then into the diagonals of the state. -/
def round (state block : Words) : Words :=
  let state := mix state 0 4 8 12 block[0] block[1]
  let state := mix state 1 5 9 13 block[2] block[3]
  let state := mix state 2 6 10 14 block[4] block[5]
  let state := mix state 3 7 11 15 block[6] block[7]
  let state := mix state 0 5 10 15 block[8] block[9]
  let state := mix state 1 6 11 12 block[10] block[11]
  let state := mix state 2 7 8 13 block[12] block[13]
  mix state 3 4 9 14 block[14] block[15]

def rounds : Nat → Words → Words → Words
  | 0, state, _ => state
  | n + 1, state, block => rounds n (round state block) (schedule.map block.get)

/-- The arguments of one compression. -/
structure Compression where
  chain : Chain
  block : Words
  counter : UInt64
  length : UInt32
  flags : UInt32

namespace Compression

/-- The first half of the compressed state. -/
def run (c : Compression) : Chain :=
  let start : Words := c.chain ++ #v[initial[0], initial[1], initial[2], initial[3],
    c.counter.toUInt32, (c.counter >>> 32).toUInt32, c.length, c.flags]
  let final := rounds 7 start c.block
  Vector.ofFn fun i : Fin 8 => final[i.val] ^^^ final[i.val + 8]

/-- Compresses the root of the tree. -/
def runRoot (c : Compression) : Chain :=
  run { c with flags := c.flags ||| rootNode }

end Compression

/-- Four bytes as a word, the lowest byte first. -/
def wordAt (bytes : Array UInt8) (start : Nat) : UInt32 :=
  (bytes.getD start 0).toUInt32 ||| (bytes.getD (start + 1) 0).toUInt32 <<< 8 |||
    (bytes.getD (start + 2) 0).toUInt32 <<< 16 ||| (bytes.getD (start + 3) 0).toUInt32 <<< 24

/-- A message block of at most 64 bytes, filled up with zeros. -/
def blockWords (bytes : List UInt8) : Words :=
  let bytes := bytes.toArray
  Vector.ofFn fun i : Fin 16 => wordAt bytes (4 * i.val)

/-- Cuts a list into pieces of `size` elements; only the last may be shorter.  There is always at
least one. -/
def cut (size : Nat) (bytes : List UInt8) : List (List UInt8) :=
  go bytes.length bytes
where
  go : Nat → List UInt8 → List (List UInt8)
    | 0, rest => [rest]
    | n + 1, rest =>
      if rest.length ≤ size then [rest] else rest.take size :: go n (rest.drop size)

/-- The compressions of the blocks of one chunk, the last of them left to be run. -/
def chunkBlocks (counter : UInt64) (chain : Chain) (flags : UInt32) :
    List (List UInt8) → Compression
  | [] => ⟨chain, blockWords [], counter, 0, flags ||| chunkEnd⟩
  | [last] => ⟨chain, blockWords last, counter, UInt32.ofNat last.length, flags ||| chunkEnd⟩
  | block :: rest =>
    let next := Compression.run ⟨chain, blockWords block, counter, UInt32.ofNat block.length, flags⟩
    chunkBlocks counter next 0 rest

/-- The leaf of the chunk with number `index`. -/
def leaf (index : Nat) (chunk : List UInt8) : Compression :=
  chunkBlocks (UInt64.ofNat index) initial chunkStart (cut 64 chunk)

def parent (left right : Compression) : Compression :=
  ⟨initial, left.run ++ right.run, 0, 64, parentNode⟩

/-- Joins neighbours of one level; an odd one at the end goes up as it is. -/
def joinLevel : List Compression → List Compression
  | left :: right :: rest => parent left right :: joinLevel rest
  | rest => rest

/-- Joins level after level until one node is left. -/
def joinAll : Nat → List Compression → List Compression
  | 0, nodes => nodes
  | n + 1, nodes => if nodes.length ≤ 1 then nodes else joinAll n (joinLevel nodes)

/-- The eight words of the hash. -/
def hash (bytes : List UInt8) : Chain :=
  let leaves := (cut 1024 bytes).zipIdx.map fun (chunk, index) => leaf index chunk
  match joinAll leaves.length leaves with
  | root :: _ => root.runRoot
  | [] => initial

/-- The digits of a byte in base sixteen. -/
def byteDigits (byte : UInt8) : List Char :=
  [Nat.digitChar (byte.toNat / 16), Nat.digitChar (byte.toNat % 16)]

/-- The digits of the bytes of a word, the lowest byte first. -/
def wordDigits (word : UInt32) : List Char :=
  byteDigits word.toUInt8 ++ byteDigits (word >>> 8).toUInt8 ++
    byteDigits (word >>> 16).toUInt8 ++ byteDigits (word >>> 24).toUInt8

/-- The hash as 64 digits in base sixteen. -/
def hexHash (bytes : List UInt8) : String :=
  String.ofList ((hash bytes).toList.flatMap wordDigits)

end DomTemplate.Digest.Blake3

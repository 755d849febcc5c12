/-!
# The header word of a block

Two counters of six bits and the dialect bit.  Counters are stored as they are, so a block has to
keep each of them below 64.
-/

namespace DomTemplate

structure Flags where
  bits : UInt32
deriving DecidableEq

namespace Flags

/-- The header of a block with the given numbers of walk slots and insertions. -/
def ofCounts (walkSlots mounts : Nat) (svg : Bool) : Flags :=
  ⟨UInt32.ofNat walkSlots ||| UInt32.ofNat mounts <<< 6 ||| if svg then 4096 else 0⟩

def walkSlots (flags : Flags) : Nat :=
  (flags.bits &&& 63).toNat

def mounts (flags : Flags) : Nat :=
  (flags.bits >>> 6 &&& 63).toNat

def isSvg (flags : Flags) : Bool :=
  flags.bits &&& 4096 ≠ 0

end Flags

end DomTemplate

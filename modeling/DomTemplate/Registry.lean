/-!
# Numbering by first arrival

A registry numbers the values it is shown: a new value gets the next number, and a value that was
seen before keeps its own.
-/

namespace DomTemplate

/-- The values seen so far, in order of arrival and without repetitions. -/
structure Registry (α : Type) where
  entries : List α

namespace Registry

variable {α : Type} [DecidableEq α]

def empty : Registry α := ⟨[]⟩

def insert (registry : Registry α) (a : α) : Registry α :=
  if a ∈ registry.entries then registry else ⟨registry.entries ++ [a]⟩

/-- The number of a value, if it has been seen. -/
def index? (registry : Registry α) (a : α) : Option Nat :=
  registry.entries.idxOf? a

/-- The number of a value as a word of 32 bits. -/
def word? (registry : Registry α) (a : α) : Option UInt32 :=
  (registry.index? a).map UInt32.ofNat

def size (registry : Registry α) : Nat :=
  registry.entries.length

end Registry

end DomTemplate

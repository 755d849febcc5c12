/-!
# The binding stream

The second stream of a block connects properties of its elements with the values of its
placeholders.  An operation acts on the current element; keys stand in a table of the block and are
named by their index, and values are named by the index of their placeholder.
-/

namespace DomTemplate

/-- Properties that are set so often that they need no entry in the key table. -/
inductive CommonProperty where
  | className
  | textContent
  | innerHTML
deriving DecidableEq

/-- The ways to bind a property that is named by a key. -/
inductive Binding where
  | attr
  | property
  | liveProperty
  | style
  | event
deriving DecidableEq

inductive BindOp where
  /-- make the node of a slot the current element -/
  | setNode (slot : Nat)
  | common (property : CommonProperty) (input : Nat)
  | keyed (binding : Binding) (key : Nat) (input : Nat)
  | directive (input : Nat)
deriving DecidableEq

namespace CommonProperty

def code : CommonProperty → Nat
  | className => 0
  | textContent => 1
  | innerHTML => 2

def ofCode? : Nat → Option CommonProperty
  | 0 => some className
  | 1 => some textContent
  | 2 => some innerHTML
  | _ => none

def name : CommonProperty → String
  | className => "className"
  | textContent => "textContent"
  | innerHTML => "innerHTML"

end CommonProperty

namespace Binding

/-- The number of the binding in the low bits of a word. -/
def code : Binding → UInt32
  | attr => 2
  | property => 3
  | liveProperty => 4
  | style => 5
  | event => 6

def name : Binding → String
  | attr => "attr"
  | property => "prop"
  | liveProperty => "dom_prop"
  | style => "style"
  | event => "event"

end Binding

namespace BindOp

/-- Three bits for the sort of operation, six for the index of a value, and the rest for the slot,
the key or the common property. -/
def pack (sort : UInt32) (input data : Nat) : UInt32 :=
  sort ||| UInt32.ofNat input <<< 3 ||| UInt32.ofNat data <<< 9

def encode : BindOp → UInt32
  | setNode slot => pack 0 0 slot
  | common property input => pack 1 input property.code
  | keyed binding key input => pack binding.code input key
  | directive input => pack 7 input 0

/-- A word is read as an operation unless it names a common property that does not exist. -/
def decode? (word : UInt32) : Option BindOp :=
  let input := (word >>> 3 &&& 63).toNat
  let data := (word >>> 9).toNat
  match (word &&& 7).toNat with
  | 0 => some (setNode data)
  | 1 => (CommonProperty.ofCode? data).map (common · input)
  | 2 => some (keyed .attr data input)
  | 3 => some (keyed .property data input)
  | 4 => some (keyed .liveProperty data input)
  | 5 => some (keyed .style data input)
  | 6 => some (keyed .event data input)
  | _ => some (directive input)

/-- The operation as listings show it. -/
def text : BindOp → String
  | setNode slot => "set_node @" ++ toString slot
  | common property input => property.name ++ " #" ++ toString input
  | keyed binding key input =>
    binding.name ++ " [" ++ toString key ++ "] #" ++ toString input
  | directive input => "directive #" ++ toString input

end BindOp

end DomTemplate

import DomTemplate.Diagnostic

/-!
# Why a root cannot be compiled

The counters of a block are six bits wide, which limits a root in three ways.  Apart from that only
a void element with children is refused.
-/

namespace DomTemplate

/-- What a block can run out of. -/
inductive Resource where
  | expressions
  | stateSlots
  | childSlots
deriving DecidableEq

namespace Resource

def limit : Resource → Nat
  | expressions => 64
  | stateSlots => 64
  | childSlots => 64

/-- Whether a block can hold so many.  Expressions are numbered from 0, so all 64 numbers are of
use; the two slot counts are themselves stored in six bits. -/
def fits (resource : Resource) (count : Nat) : Bool :=
  match resource with
  | expressions => count ≤ expressions.limit
  | stateSlots => count < stateSlots.limit
  | childSlots => count < childSlots.limit

def noun : Resource → String
  | expressions => "expressions"
  | stateSlots => "state slots"
  | childSlots => "child slots"

end Resource

/-- The cause of a refusal. -/
inductive RefusalCause where
  | capacityExceeded (resource : Resource) (count : Nat)
  | voidElementChildren (tag : String)
deriving DecidableEq

/-- A root that cannot be compiled: its number, the tags from the root down to the element at fault,
and the cause. -/
structure Refusal where
  root : Nat
  path : List String
  cause : RefusalCause
deriving DecidableEq

namespace Refusal

def isCapacity (refusal : Refusal) : Bool :=
  match refusal.cause with
  | .capacityExceeded .. => true
  | .voidElementChildren _ => false

def message (refusal : Refusal) : String :=
  match refusal.cause with
  | .capacityExceeded resource _ =>
    "exceeded maximum number (" ++ toString resource.limit ++ ") of " ++ resource.noun ++
      " per template block"
  | .voidElementChildren tag => "void element '" ++ tag ++ "' shouldn't have any children"

def help (refusal : Refusal) : String :=
  match refusal.cause with
  | .capacityExceeded resource count =>
    "found " ++ toString count ++ " " ++ resource.noun ++
      "; split the template into smaller blocks"
  | .voidElementChildren tag => "remove the children of <" ++ tag ++ ">"

/-- Where the element at fault stands. -/
def location (refusal : Refusal) : String :=
  "in root #" ++ toString refusal.root ++ " at <" ++ "> <".intercalate refusal.path ++ ">"

def toDiagnostic (refusal : Refusal) : Diagnostic :=
  ((Diagnostic.error refusal.message).withNote refusal.location).withHelp refusal.help

end Refusal

end DomTemplate

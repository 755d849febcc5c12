import DomTemplate.Block.Shell
import DomTemplate.Stream.Bind
import DomTemplate.Tree.Basic

/-!
# Pages

A page is the tree that a block is put to work on.  Its nodes have identities, since the streams of
a block find a node once and come back to it after others have been inserted around it.  What a
placeholder is filled with is a list of nodes of an arbitrary type `ν`, into which a block never
looks.

Two pages are the same to a reader if they agree when the identities are forgotten.
-/

namespace DomTemplate

/-- The constant attributes of an element: each key with its value, or bare, and the inline style,
which is empty if there is none. -/
structure Attributes where
  fields : List (String × Option String)
  style : String
deriving DecidableEq

/-- What tells a node apart from all others on a page.  A place in a template is given by the
numbers of the children on the way down from the root. -/
inductive NodeId where
  /-- the copy of the template node at a place -/
  | cloned (place : List Nat)
  /-- the separator in front of the text at a place -/
  | separator (place : List Nat)
  /-- a node that has been inserted; insertions are counted over the whole page -/
  | mounted (number : Nat)
deriving DecidableEq

/-- Where a bound value goes. -/
inductive Destination where
  | common (name : String)
  | keyed (binding : Binding) (key : String)
  | directive
deriving DecidableEq

/-- One line in the log of an element: a value and where it went. -/
structure LogEntry (ν : Type) where
  destination : Destination
  value : List ν

/-- A node of a page with what stands below it.  Identities have type `ι`. -/
inductive Dom (ι ν : Type) where
  | element (id : ι) (tag : String) (attributes : Attributes) (log : List (LogEntry ν))
      (children : List (Dom ι ν))
  | text (id : ι) (value : String)
  | separator (id : ι)
  | mounted (id : ι) (node : ν)

namespace Attributes

/-- The attribute that a property leaves in the markup.  The inline style is kept apart. -/
def field? (p : Property) : Option (String × Option String) :=
  match p.kind, p.value with
  | .attr, .string value => if p.key = "style" then none else some (p.key, some value)
  | .attr, .bool true => if p.key = "style" then none else some (p.key, none)
  | _, _ => none

/-- What a property adds to the inline style. -/
def declaration? (p : Property) : Option String :=
  match p.kind, p.value with
  | .attr, .string value => if p.key = "style" then some value else none
  | .style, .string value => some (p.key ++ ":" ++ value)
  | _, _ => none

def ofProperties (properties : List Property) : Attributes where
  fields := properties.filterMap field?
  style := (properties.filterMap declaration?).foldl Shell.appendStyle ""

/-- One attribute as markup. -/
def fieldText : String × Option String → String
  | (key, some value) => " " ++ key ++ "=\"" ++ value ++ "\""
  | (key, none) => " " ++ key

/-- The attributes as markup, the style at the end. -/
def parts (attributes : Attributes) : List String :=
  attributes.fields.map fieldText ++
    if attributes.style = "" then [] else [" style=\"" ++ attributes.style ++ "\""]

end Attributes

namespace Dom

variable {ι ν : Type}

def id : Dom ι ν → ι
  | element id .. => id
  | text id _ => id
  | separator id => id
  | mounted id _ => id

def isSeparator : Dom ι ν → Bool
  | separator _ => true
  | _ => false

mutual

/-- The node without identities. -/
def forget : Dom ι ν → Dom Unit ν
  | element _ tag attributes log children => element () tag attributes log (forgetAll children)
  | text _ value => text () value
  | separator _ => separator ()
  | mounted _ node => mounted () node

def forgetAll : List (Dom ι ν) → List (Dom Unit ν)
  | [] => []
  | node :: rest => forget node :: forgetAll rest

end

mutual

/-- The identities of a node and of all below it, in document order. -/
def ids : Dom ι ν → List ι
  | element id _ _ _ children => id :: idsAll children
  | text id _ => [id]
  | separator id => [id]
  | mounted id _ => [id]

def idsAll : List (Dom ι ν) → List ι
  | [] => []
  | node :: rest => ids node ++ idsAll rest

end

mutual

/-- Takes all separators away from below a node. -/
def sweep : Dom ι ν → Dom ι ν
  | element id tag attributes log children => element id tag attributes log (sweepAll children)
  | text id value => text id value
  | separator id => separator id
  | mounted id node => mounted id node

def sweepAll : List (Dom ι ν) → List (Dom ι ν)
  | [] => []
  | node :: rest => if node.isSeparator then sweepAll rest else sweep node :: sweepAll rest

end

mutual

/-- Whether there is a separator at or below a node. -/
def hasSeparator : Dom ι ν → Bool
  | element _ _ _ _ children => anySeparator children
  | text .. => false
  | separator _ => true
  | mounted .. => false

def anySeparator : List (Dom ι ν) → Bool
  | [] => false
  | node :: rest => hasSeparator node || anySeparator rest

end

mutual

/-- The markup of a node in pieces, with inserted nodes written by `write`. -/
def parts (write : ν → String) : Dom ι ν → List String
  | element _ tag attributes _ children =>
    (("<" ++ tag) :: attributes.parts ++ [">"]) ++
      if isVoid tag then [] else partsAll write children ++ ["</" ++ tag ++ ">"]
  | text _ value => [value]
  | separator _ => [Shell.separator]
  | mounted _ node => [write node]

def partsAll (write : ν → String) : List (Dom ι ν) → List String
  | [] => []
  | node :: rest => parts write node ++ partsAll write rest

end

def markup (write : ν → String) (node : Dom ι ν) : String :=
  String.join (node.parts write)

mutual

/-- Whether a page can be what parsing gives: no text is empty, and no two texts are neighbours. -/
def isParsed : Dom ι ν → Bool
  | element _ _ _ _ children => areParsed false children
  | text _ value => value ≠ ""
  | separator _ => true
  | mounted .. => true

/-- The same for siblings, of which the first comes right after a text if `afterText`. -/
def areParsed (afterText : Bool) : List (Dom ι ν) → Bool
  | [] => true
  | node :: rest =>
    match node with
    | text _ value => value ≠ "" && !afterText && areParsed true rest
    | _ => isParsed node && areParsed false rest

end

end Dom

/-- A page is what a shell denotes if it has the shell's markup and could come out of parsing. -/
def Shell.Denotes {ι ν : Type} (shell : Shell) (page : Dom ι ν) : Prop :=
  page.isParsed = true ∧ ∀ write, page.markup write = shell.markup

end DomTemplate

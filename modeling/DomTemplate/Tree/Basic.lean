/-!
# Template trees

A template is a list of root nodes.  A node is an element with properties and children, a literal
text, or a placeholder that the page fills in at run time.  Properties may be constant or bound to
a placeholder as well.
-/

namespace DomTemplate

/-- The markup dialect a template is written for. -/
inductive Dialect where
  | html
  | svg
deriving DecidableEq

/-- A numbered hole of a template.  The number is chosen by the author and need not be dense. -/
structure Placeholder where
  id : UInt32
deriving DecidableEq

/-- How a property acts on its element. -/
inductive PropertyKind where
  /-- a markup attribute -/
  | attr
  /-- one declaration of the inline style -/
  | style
  /-- a property of the element object, assigned when the bound value changes -/
  | value
  /-- a property of the element object, assigned when it differs from the live one -/
  | domValue
  /-- an event listener -/
  | event
  /-- a callback that receives the element; it has no key -/
  | directive
deriving DecidableEq

inductive PropertyValue where
  | string (value : String)
  | bool (value : Bool)
  | bound (target : Placeholder)
deriving DecidableEq

structure Property where
  kind : PropertyKind
  key : String
  value : PropertyValue
deriving DecidableEq

inductive Node where
  | element (tag : String) (properties : List Property) (children : List Node)
  | text (value : String)
  | placeholder (target : Placeholder)

/-- An element on its own, as the builders below assemble it. -/
structure Element where
  tag : String
  properties : List Property := []
  children : List Node := []

structure Template where
  dialect : Dialect
  roots : List Node

namespace Dialect

def name : Dialect → String
  | html => "html"
  | svg => "svg"

/-- Reads a dialect name, short or long. -/
def ofName? : String → Option Dialect
  | "html" => some html
  | "htm" => some html
  | "svg" => some svg
  | _ => none

end Dialect

/-- The written form of a placeholder: its number after a dollar sign. -/
def Placeholder.label (target : Placeholder) : String :=
  "$" ++ toString target.id.toNat

namespace PropertyKind

/-- The kinds with their names, in the order in which messages list them. -/
def names : List (String × PropertyKind) :=
  [("attribute", attr), ("style", style), ("value", value), ("domvalue", domValue),
    ("event", event), ("directive", directive)]

def name : PropertyKind → String
  | attr => "attribute"
  | style => "style"
  | value => "value"
  | domValue => "domvalue"
  | event => "event"
  | directive => "directive"

end PropertyKind

namespace Property

/-- The placeholder a property is bound to, if it is bound. -/
def target? (p : Property) : Option Placeholder :=
  match p.value with
  | .bound target => some target
  | _ => none

def isDynamic (p : Property) : Bool :=
  p.target?.isSome

end Property

namespace Node

def isElement : Node → Bool
  | element .. => true
  | _ => false

def isText : Node → Bool
  | text _ => true
  | _ => false

def isPlaceholder : Node → Bool
  | placeholder _ => true
  | _ => false

end Node

namespace Element

def toNode (e : Element) : Node :=
  .element e.tag e.properties e.children

/-- How many properties of the element are bound to a placeholder. -/
def dynamicPropertyCount (e : Element) : Nat :=
  e.properties.countP Property.isDynamic

def withProperty (e : Element) (p : Property) : Element :=
  { e with properties := e.properties ++ [p] }

def withAttribute (e : Element) (key : String) (value : PropertyValue) : Element :=
  e.withProperty ⟨.attr, key, value⟩

def withStyle (e : Element) (key : String) (value : PropertyValue) : Element :=
  e.withProperty ⟨.style, key, value⟩

def withValue (e : Element) (key : String) (target : Placeholder) : Element :=
  e.withProperty ⟨.value, key, .bound target⟩

def withDomValue (e : Element) (key : String) (target : Placeholder) : Element :=
  e.withProperty ⟨.domValue, key, .bound target⟩

def withEvent (e : Element) (key : String) (target : Placeholder) : Element :=
  e.withProperty ⟨.event, key, .bound target⟩

def withDirective (e : Element) (target : Placeholder) : Element :=
  e.withProperty ⟨.directive, "", .bound target⟩

def withChild (e : Element) (child : Node) : Element :=
  { e with children := e.children ++ [child] }

def withChildren (e : Element) (children : List Node) : Element :=
  { e with children := e.children ++ children }

/-- A new element of the given tag with `e` as its only child. -/
def wrap (e : Element) (tag : String) : Element :=
  ⟨tag, [], [e.toNode]⟩

end Element

end DomTemplate

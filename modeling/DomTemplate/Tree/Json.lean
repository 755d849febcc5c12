import DomTemplate.Json.Document
import DomTemplate.Tree.Basic

/-!
# Templates as JSON

The exchange form of templates.  `Template.toJson` writes all fields; `Template.read` also takes the
shorter forms, in which properties and children may be missing and records are lists.
-/

namespace DomTemplate

open Json

/-- The sorts of template nodes. -/
inductive NodeSort where
  | element
  | text
  | placeholder
deriving DecidableEq

def NodeSort.names : List (String × NodeSort) :=
  [("element", .element), ("text", .text), ("expr", .placeholder)]

def Dialect.names : List (String × Dialect) :=
  [("html", .html), ("svg", .svg)]

/-! ### Writing -/

def PropertyValue.toJson : PropertyValue → Value
  | string value => .string value
  | bool value => .bool value
  | bound target => .integer target.id.toNat

def Property.toJson (p : Property) : Value :=
  .object [("kind", .string p.kind.name), ("key", .string p.key), ("value", p.value.toJson)]

mutual

def Node.toJson : Node → Value
  | .element tag properties children =>
    .object [("type", .string "element"), ("tag", .string tag),
      ("properties", .array (properties.map Property.toJson)),
      ("children", .array (nodesToJson children))]
  | .text value => .object [("type", .string "text"), ("value", .string value)]
  | .placeholder target =>
    .object [("type", .string "expr"), ("value", .integer target.id.toNat)]

def nodesToJson : List Node → List Value
  | [] => []
  | node :: rest => node.toJson :: nodesToJson rest

end

def Template.toJson (template : Template) : Value :=
  .object [("kind", .string template.dialect.name),
    ("children", .array (nodesToJson template.roots))]

/-! ### Interpreting -/

def PropertyValue.ofJson : Value → Except Cause PropertyValue
  | .string value => .ok (.string value)
  | .bool value => .ok (.bool value)
  | .integer n =>
    if 0 ≤ n && n < UInt32.size then .ok (.bound ⟨UInt32.ofNat n.toNat⟩)
    else .error (.noVariant "PropertyValue")
  | _ => .error (.noVariant "PropertyValue")

/-- The fields of a property that have been read. -/
structure PropertyFields where
  kind : Option PropertyKind := none
  key : Option String := none
  value : Option PropertyValue := none

def PropertyFields.add (found : PropertyFields) : String × Value → Except Cause PropertyFields
  | ("kind", v) => do
    let kind ← setOnce "kind" found.kind (v.asVariant PropertyKind.names)
    .ok { found with kind }
  | ("key", v) => do
    let key ← setOnce "key" found.key v.asString
    .ok { found with key }
  | ("value", v) => do
    let value ← setOnce "value" found.value (PropertyValue.ofJson v)
    .ok { found with value }
  | _ => .ok found

/-- Reads a property.  Its key may be missing. -/
def Property.ofJson : Value → Except Cause Property
  | .array [] => tooShort "struct Property" 0 3
  | .array [k] => do
    let _ ← k.asVariant PropertyKind.names
    tooShort "struct Property" 2 3
  | .array [k, key] => do
    let _ ← k.asVariant PropertyKind.names
    let _ ← key.asString
    tooShort "struct Property" 2 3
  | .array (k :: key :: v :: rest) => do
    let kind ← k.asVariant PropertyKind.names
    let key ← key.asString
    let value ← PropertyValue.ofJson v
    if rest.isEmpty then .ok ⟨kind, key, value⟩ else tooLong (rest.length + 3) 3
  | .object fields => do
    let found ← fields.foldlM PropertyFields.add {}
    let kind ← required "kind" found.kind
    let value ← required "value" found.value
    .ok ⟨kind, found.key.getD "", value⟩
  | v => v.mismatch "struct Property"

def placeholderOfJson (v : Value) : Except Cause Node := do
  let id ← v.asWord
  .ok (.placeholder ⟨id⟩)

def textOfJson (v : Value) : Except Cause Node := do
  let text ← v.asString
  .ok (.text text)

/-- The fields of an element that have been read. -/
structure ElementFields where
  tag : Option String := none
  properties : Option (List Property) := none
  children : Option (List Node) := none

/-- The element made of the fields that were read.  Only the tag has to be there. -/
def ElementFields.toNode (found : ElementFields) : Except Cause Node := do
  let tag ← required "tag" found.tag
  .ok (.element tag (found.properties.getD []) (found.children.getD []))

mutual

/-- Reads a node inside an element. -/
def Node.ofJson : Value → Except Cause Node
  | .array [] => .error (.missingField "type")
  | .array (tag :: items) => do
    let sort ← tag.asTag NodeSort.names
    match sort with
    | .element => elementOfItems items
    | .text => (Value.array items).asSingle "struct variant Node::Text" "value" textOfJson
    | .placeholder =>
      (Value.array items).asSingle "struct variant Node::Expr" "value" placeholderOfJson
  | .object fields => do
    let sort ← Value.tagField NodeSort.names fields
    match sort with
    | .element => do
      let found ← elementFields {} fields
      found.toNode
    | .text => (Value.object fields).asSingle "struct variant Node::Text" "value" textOfJson
    | .placeholder =>
      (Value.object fields).asSingle "struct variant Node::Expr" "value" placeholderOfJson
  | v => v.mismatch "internally tagged enum Node"

/-- Reads a list of nodes. -/
def nodesOfJson : Value → Except Cause (List Node)
  | .array items => nodesOfItems items
  | v => v.mismatch "a sequence"

def nodesOfItems : List Value → Except Cause (List Node)
  | [] => .ok []
  | item :: rest => do
    let node ← Node.ofJson item
    let nodes ← nodesOfItems rest
    .ok (node :: nodes)

/-- Reads an element from the list of its fields. -/
def elementOfItems : List Value → Except Cause Node
  | [] => tooShort "struct Element" 0 3
  | tag :: items => do
    let tag ← tag.asString
    match items with
    | [] => .ok (.element tag [] [])
    | properties :: items => do
      let properties ← properties.asList Property.ofJson
      match items with
      | [] => .ok (.element tag properties [])
      | children :: rest => do
        let children ← nodesOfJson children
        if rest.isEmpty then .ok (.element tag properties children)
        else tooLong (rest.length + 3) 3

/-- Reads the fields of an element one after the other. -/
def elementFields (found : ElementFields) :
    List (String × Value) → Except Cause ElementFields
  | [] => .ok found
  | field :: rest => do
    let found ← elementField found field
    elementFields found rest

/-- Reads one field of an element. -/
def elementField (found : ElementFields) : String × Value → Except Cause ElementFields
  | (key, v) =>
    if key = "tag" then do
      let tag ← setOnce "tag" found.tag v.asString
      .ok { found with tag }
    else if key = "properties" then do
      let properties ← setOnce "properties" found.properties (v.asList Property.ofJson)
      .ok { found with properties }
    else if key = "children" then do
      let children ← setOnce "children" found.children (nodesOfJson v)
      .ok { found with children }
    else .ok found

end

/-- Interprets a root node whose tag has been read. -/
def Node.ofRoot (sort : NodeSort) (content : Value) : Except Cause Node :=
  match sort, content with
  | .element, .array items => elementOfItems items
  | .element, .object fields => do
    let found ← elementFields {} fields
    found.toNode
  | .element, v => v.mismatch "struct Element"
  | .text, v => v.asSingle "struct variant Node::Text" "value" textOfJson
  | .placeholder, v => v.asSingle "struct variant Node::Expr" "value" placeholderOfJson

/-! ### Reading -/

/-- Reads the roots of a template. -/
def Template.readRoots (rest : List Char) : Except Fault (List Node × List Char) :=
  nodeList (node "Node" NodeSort.names Node.ofRoot) rest

/-- Reads a field of a template. -/
def Template.readField (state : Option Dialect × Option (List Node)) (key : String)
    (rest : List Char) : Except Fault ((Option Dialect × Option (List Node)) × List Char) :=
  let (dialect, roots) := state
  if key = "kind" then
    match dialect with
    | some _ => .error (.before (objectStop rest) (.duplicateField "kind"))
    | none => do
      let rest ← colon rest
      let (dialect, rest) ← unitVariant Dialect.names rest
      .ok ((some dialect, roots), rest)
  else if key = "children" then
    match roots with
    | some _ => .error (.before (objectStop rest) (.duplicateField "children"))
    | none => do
      let rest ← colon rest
      let (roots, rest) ← Template.readRoots rest
      .ok ((dialect, some roots), rest)
  else skipField state rest

/-- Reads a template in object form, after the opening brace.  The dialect may be missing. -/
def Template.readObject (rest : List Char) : Except Fault Template := do
  let ((dialect, roots), rest) ←
    fields Template.readField (rest.length + 1) true (none, none) rest
  match roots with
  | none => .error (.before (objectStop rest) (.missingField "children"))
  | some roots =>
    let rest ← endObject rest
    endOfText ⟨dialect.getD .html, roots⟩ rest

/-- Reads a template in list form, after the opening bracket. -/
def Template.readList (rest : List Char) : Except Fault Template := do
  let tooShort (rest : List Char) : Except Fault Template :=
    .error (.before (listStop rest) (.invalidLength 1 ("struct Template with " ++ elements 2)))
  let (more, rest) ← nextItem true rest
  if more then
    let (dialect, rest) ← unitVariant Dialect.names rest
    let (more, rest) ← nextItem false rest
    if more then
      let (roots, rest) ← Template.readRoots rest
      let rest ← endList rest
      endOfText ⟨dialect, roots⟩ rest
    else tooShort rest
  else tooShort rest

/-- Reads a template. -/
def Template.read (source : List Char) : Except Fault Template :=
  let rest := skipSpace source
  match rest with
  | [] => .error (.before [] .eofInValue)
  | '\x7b' :: rest => Template.readObject rest
  | '[' :: rest => Template.readList rest
  | _ => refuse "struct Template" rest

end DomTemplate

import DomTemplate.Json.Shape
import DomTemplate.Json.Skip

/-!
# Reading JSON documents

A document is an object, or the list of its fields, one of which is a list of nodes.  It is read
field by field.  Each node is read whole before it is interpreted, so that faults of syntax inside
it come first.  An interpretation has no place of its own: its faults are placed behind the node,
where the reader stands after it has looked for the end of the list.
-/

namespace DomTemplate.Json

/-- Where a reader stands after it has looked for the end of a list. -/
def listStop (rest : List Char) : List Char :=
  let rest := skipSpace rest
  match rest with
  | ']' :: rest => rest
  | ',' :: rest => skipSpace rest
  | _ => rest

/-- Where a reader stands after it has looked for the end of an object. -/
def objectStop (rest : List Char) : List Char :=
  let rest := skipSpace rest
  match rest with
  | '\x7d' :: rest => rest
  | _ => rest

/-- Places the cause of a failure. -/
def place {α : Type} (rest : List Char) : Except Cause α → Except Fault α
  | .ok a => .ok a
  | .error cause => .error (.before rest cause)

/-- Refuses the value that `rest` starts with.  A scalar is read first. -/
def refuse {α : Type} (expected : String) (rest : List Char) : Except Fault α :=
  match rest with
  | '[' :: _ => .error (.before rest (.invalidType "sequence" expected))
  | '\x7b' :: _ => .error (.before rest (.invalidType "map" expected))
  | _ => do
    let (found, after) ← value 0 rest
    .error (.before after (.invalidType found.describe expected))

/-- Reads the name of a variant. -/
def variantName {α : Type} (variants : List (String × α)) (rest : List Char) :
    Except Fault (α × List Char) :=
  let rest := skipSpace rest
  match rest with
  | [] => .error (.before [] .eofInValue)
  | '"' :: after => do
    let (name, after) ← string after
    let a ← place after (variant variants name)
    .ok (a, after)
  | _ => refuse "variant identifier" rest

/-- Reads a variant without data: its name, or an object with its name as the only key and null
under it. -/
def unitVariant {α : Type} (variants : List (String × α)) (rest : List Char) :
    Except Fault (α × List Char) :=
  let rest := skipSpace rest
  match rest with
  | [] => .error (.before [] .eofInValue)
  | '"' :: _ => variantName variants rest
  | '\x7b' :: after =>
    let after := skipSpace after
    match after with
    | [] => .error (.before [] .eofInObject)
    | '"' :: after => do
      let (name, after) ← string after
      let a ← place after (variant variants name)
      let after ← colon after
      let after := skipSpace after
      let after ← (match after with
        | [] => .error (.before [] .eofInValue)
        | 'n' :: after => keyword ['u', 'l', 'l'] after
        | _ => refuse "unit" after)
      let after := skipSpace after
      match after with
      | [] => .error (.before [] .eofInObject)
      | '\x7d' :: after => .ok (a, after)
      | _ => .error (.before after .expectedValue)
    | '\x7d' :: _ => .error (.within after .expectedValue)
    | _ => .error (.within after .keyMustBeString)
  | _ => .error (.within rest .expectedValue)

/-- How deep values may be nested inside a node of a document: the document, its list and the node
are three levels themselves. -/
def nodeDepth : Nat :=
  nestingLimit - 3

/-- Reads a field of a node.  The tag is kept apart from the other fields. -/
def nodeField {α : Type} (variants : List (String × α)) (state : Option α × List (String × Value))
    (key : String) (rest : List Char) :
    Except Fault ((Option α × List (String × Value)) × List Char) :=
  let (tag, before) := state
  if key = "type" then
    match tag with
    | some _ => .error (.before (objectStop rest) (.duplicateField "type"))
    | none => do
      let rest ← colon rest
      let (a, rest) ← variantName variants rest
      .ok ((some a, before), rest)
  else do
    let (entries, rest) ← addField (value nodeDepth) before key rest
    .ok ((tag, entries), rest)

/-- Reads a node of a document: its tag, and the rest of it as a value.  In list form the tag comes
first. -/
def taggedNode {α : Type} (type : String) (variants : List (String × α)) (rest : List Char) :
    Except Fault ((α × Value) × List Char) :=
  let rest := skipSpace rest
  match rest with
  | [] => .error (.before [] .eofInValue)
  | '\x7b' :: after => do
    let ((tag, entries), after) ←
      fields (nodeField variants) (after.length + 1) true (none, []) after
    match tag with
    | none => .error (.before (objectStop after) (.missingField "type"))
    | some a =>
      let after ← endObject after
      .ok ((a, .object entries.reverse), after)
  | '[' :: after => do
    let (more, after) ← nextItem true after
    if more then
      let (a, after) ← variantName variants after
      let (values, after) ← items (value nodeDepth) (after.length + 1) false after
      let after ← endList after
      .ok ((a, .array values), after)
    else .error (.before (listStop after) (.missingField "type"))
  | _ => refuse ("internally tagged enum " ++ type) rest

/-- Reads a node of a document and interprets it. -/
def node {α β : Type} (type : String) (variants : List (String × α))
    (interpret : α → Value → Except Cause β) (rest : List Char) : Except Fault (β × List Char) := do
  let ((tag, content), rest) ← taggedNode type variants rest
  let b ← place (listStop rest) (interpret tag content)
  .ok (b, rest)

/-- Reads a list of nodes. -/
def nodeList {β : Type} (node : List Char → Except Fault (β × List Char)) (rest : List Char) :
    Except Fault (List β × List Char) :=
  let rest := skipSpace rest
  match rest with
  | [] => .error (.before [] .eofInValue)
  | '[' :: after => do
    let (nodes, after) ← items node (after.length + 1) true after
    let after ← endList after
    .ok (nodes, after)
  | _ => refuse "a sequence" rest

/-- Skips a field that a document does not know. -/
def skipField {σ : Type} (state : σ) (rest : List Char) : Except Fault (σ × List Char) := do
  let rest ← colon rest
  let rest ← skip rest
  .ok (state, rest)

/-- Checks that nothing but white space follows a document. -/
def endOfText {α : Type} (a : α) (rest : List Char) : Except Fault α :=
  let rest := skipSpace rest
  match rest with
  | [] => .ok a
  | _ => .error (.within rest .trailingCharacters)

end DomTemplate.Json

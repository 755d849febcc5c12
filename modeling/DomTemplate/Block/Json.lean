import DomTemplate.Block.Basic
import DomTemplate.Json.Document
import DomTemplate.Json.Pretty

/-!
# Artifacts as JSON

The form in which encoded artifacts are stored.  A shell is written as a string if it is a bare tag
and as a list of strings otherwise.
-/

namespace DomTemplate

open Json

/-- The sorts of compiled roots. -/
inductive RootSort where
  | block
  | text
  | placeholder
deriving DecidableEq

def RootSort.names : List (String × RootSort) :=
  [("block", .block), ("text", .text), ("expr", .placeholder)]

/-! ### Writing -/

def wordsToJson (words : List UInt32) : Value :=
  .array (words.map fun word => .integer word.toNat)

def textsToJson (texts : List String) : Value :=
  .array (texts.map .string)

def Shell.toJson : Shell → Value
  | tag name => .string name
  | chunks parts => textsToJson parts

def Root.toJson : Root EncodedBlock → Value
  | .block b =>
    .object [("type", .string "block"), ("flags", .integer b.flags.toNat),
      ("template", b.shell.toJson), ("props", wordsToJson b.binds),
      ("child", wordsToJson b.mounts), ("state", wordsToJson b.walk),
      ("data", textsToJson b.keys), ("exprs", wordsToJson b.inputs)]
  | .text value => .object [("type", .string "text"), ("value", .string value)]
  | .placeholder target =>
    .object [("type", .string "expr"), ("value", .integer target.id.toNat)]

def EncodedArtifact.toJson (artifact : EncodedArtifact) : Value :=
  .object [("roots", .array (artifact.roots.map Root.toJson))]

/-- The text of an artifact file. -/
def EncodedArtifact.toText (artifact : EncodedArtifact) : String :=
  artifact.toJson.toText

/-! ### Interpreting -/

def Shell.ofJson : Value → Except Cause Shell
  | .string name => .ok (.tag name)
  | v =>
    match v.asList Value.asString with
    | .ok parts => .ok (.chunks parts)
    | .error _ => .error (.noVariant "EncodedShell")

/-- The fields of an encoded block that have been read. -/
structure BlockFields where
  flags : Option UInt32 := none
  shell : Option Shell := none
  binds : Option (List UInt32) := none
  mounts : Option (List UInt32) := none
  walk : Option (List UInt32) := none
  keys : Option (List String) := none
  inputs : Option (List UInt32) := none

def BlockFields.add (found : BlockFields) : String × Value → Except Cause BlockFields
  | ("flags", v) => do
    let flags ← setOnce "flags" found.flags v.asWord
    .ok { found with flags }
  | ("template", v) => do
    let shell ← setOnce "template" found.shell (Shell.ofJson v)
    .ok { found with shell }
  | ("props", v) => do
    let binds ← setOnce "props" found.binds (v.asList Value.asWord)
    .ok { found with binds }
  | ("child", v) => do
    let mounts ← setOnce "child" found.mounts (v.asList Value.asWord)
    .ok { found with mounts }
  | ("state", v) => do
    let walk ← setOnce "state" found.walk (v.asList Value.asWord)
    .ok { found with walk }
  | ("data", v) => do
    let keys ← setOnce "data" found.keys (v.asList Value.asString)
    .ok { found with keys }
  | ("exprs", v) => do
    let inputs ← setOnce "exprs" found.inputs (v.asList Value.asWord)
    .ok { found with inputs }
  | _ => .ok found

def BlockFields.toBlock (found : BlockFields) : Except Cause EncodedBlock := do
  let flags ← required "flags" found.flags
  let shell ← required "template" found.shell
  let binds ← required "props" found.binds
  let mounts ← required "child" found.mounts
  let walk ← required "state" found.walk
  let keys ← required "data" found.keys
  let inputs ← required "exprs" found.inputs
  .ok { flags, shell, binds, mounts, walk, keys, inputs }

/-- The names of the fields of an encoded block, in the order of the list form. -/
def BlockFields.names : List String :=
  ["flags", "template", "props", "child", "state", "data", "exprs"]

/-- Reads a block from the list of its fields: what is there is read first, in order. -/
def blockOfItems (items : List Value) : Except Cause EncodedBlock := do
  let found ← (BlockFields.names.zip items).foldlM BlockFields.add {}
  let count := BlockFields.names.length
  if items.length < count then tooShort "struct EncodedBlock" items.length count
  else if count < items.length then tooLong items.length count
  else found.toBlock

def blockOfJson : Value → Except Cause EncodedBlock
  | .array items => blockOfItems items
  | .object fields => do
    let found ← fields.foldlM BlockFields.add {}
    found.toBlock
  | v => v.mismatch "struct EncodedBlock"

/-- Interprets a compiled root whose tag has been read. -/
def Root.ofJson (sort : RootSort) (content : Value) : Except Cause (Root EncodedBlock) :=
  match sort with
  | .block => do
    let b ← blockOfJson content
    .ok (.block b)
  | .text => do
    let text ← content.asSingle "struct variant EncodedNode::Text" "value" Value.asString
    .ok (.text text)
  | .placeholder => do
    let id ← content.asSingle "struct variant EncodedNode::Expr" "value" Value.asWord
    .ok (.placeholder ⟨id⟩)

/-! ### Reading -/

/-- Reads the roots of an artifact. -/
def EncodedArtifact.readRoots (rest : List Char) :
    Except Fault (List (Root EncodedBlock) × List Char) :=
  nodeList (node "EncodedNode" RootSort.names Root.ofJson) rest

/-- Reads a field of an artifact. -/
def EncodedArtifact.readField (state : Option (List (Root EncodedBlock))) (key : String)
    (rest : List Char) : Except Fault (Option (List (Root EncodedBlock)) × List Char) :=
  if key = "roots" then
    match state with
    | some _ => .error (.before (objectStop rest) (.duplicateField "roots"))
    | none => do
      let rest ← colon rest
      let (roots, rest) ← EncodedArtifact.readRoots rest
      .ok (some roots, rest)
  else skipField state rest

/-- Reads an artifact in object form, after the opening brace. -/
def EncodedArtifact.readObject (rest : List Char) : Except Fault EncodedArtifact := do
  let (roots, rest) ← fields EncodedArtifact.readField (rest.length + 1) true none rest
  match roots with
  | none => .error (.before (objectStop rest) (.missingField "roots"))
  | some roots =>
    let rest ← endObject rest
    endOfText ⟨roots⟩ rest

/-- Reads an artifact in list form, after the opening bracket. -/
def EncodedArtifact.readList (rest : List Char) : Except Fault EncodedArtifact := do
  let (more, rest) ← nextItem true rest
  if more then
    let (roots, rest) ← EncodedArtifact.readRoots rest
    let rest ← endList rest
    endOfText ⟨roots⟩ rest
  else
    .error (.before (listStop rest)
      (.invalidLength 0 ("struct EncodedArtifact with " ++ elements 1)))

/-- Reads an artifact. -/
def EncodedArtifact.read (source : List Char) : Except Fault EncodedArtifact :=
  let rest := skipSpace source
  match rest with
  | [] => .error (.before [] .eofInValue)
  | '\x7b' :: rest => EncodedArtifact.readObject rest
  | '[' :: rest => EncodedArtifact.readList rest
  | _ => refuse "struct EncodedArtifact" rest

end DomTemplate

import DomTemplate.Json.Scalar

/-!
# Reading JSON values

Lists and objects are read by loops that are handed a reader for their parts; the depth of nesting
is bounded, and every level of it is one step of a recursion on the levels still allowed.
-/

namespace DomTemplate.Json

/-- Goes to the next item of a list.  Tells whether there is one; if not, the rest is left at the
closing bracket. -/
def nextItem (first : Bool) (rest : List Char) : Except Fault (Bool × List Char) :=
  let rest := skipSpace rest
  match rest with
  | [] => .error (.before [] .eofInList)
  | ']' :: _ => .ok (false, rest)
  | c :: after =>
    if first then .ok (true, rest)
    else if c = ',' then
      let after := skipSpace after
      match after with
      | [] => .error (.before [] .eofInValue)
      | ']' :: _ => .error (.within after .trailingComma)
      | _ => .ok (true, after)
    else .error (.within rest .expectedListCommaOrEnd)

/-- Goes to the next key of an object, and past its opening quote.  Tells whether there is one; if
not, the rest is left at the closing brace. -/
def nextKey (first : Bool) (rest : List Char) : Except Fault (Bool × List Char) :=
  let rest := skipSpace rest
  match rest with
  | [] => .error (.before [] .eofInObject)
  | '\x7d' :: _ => .ok (false, rest)
  | c :: after =>
    if first then
      if c = '"' then .ok (true, after) else .error (.within rest .keyMustBeString)
    else if c = ',' then
      let after := skipSpace after
      match after with
      | [] => .error (.before [] .eofInValue)
      | '"' :: after => .ok (true, after)
      | '\x7d' :: _ => .error (.within after .trailingComma)
      | _ => .error (.within after .keyMustBeString)
    else .error (.within rest .expectedObjectCommaOrEnd)

/-- Reads the colon after a key. -/
def colon (rest : List Char) : Except Fault (List Char) :=
  let rest := skipSpace rest
  match rest with
  | [] => .error (.before [] .eofInObject)
  | ':' :: rest => .ok rest
  | _ => .error (.within rest .expectedColon)

/-- Reads the end of a list. -/
def endList (rest : List Char) : Except Fault (List Char) :=
  let rest := skipSpace rest
  match rest with
  | [] => .error (.before [] .eofInList)
  | ']' :: rest => .ok rest
  | ',' :: rest =>
    let rest := skipSpace rest
    match rest with
    | ']' :: _ => .error (.within rest .trailingComma)
    | _ => .error (.within rest .trailingCharacters)
  | _ => .error (.within rest .trailingCharacters)

/-- Reads the end of an object. -/
def endObject (rest : List Char) : Except Fault (List Char) :=
  let rest := skipSpace rest
  match rest with
  | [] => .error (.before [] .eofInObject)
  | '\x7d' :: rest => .ok rest
  | ',' :: _ => .error (.within rest .trailingComma)
  | _ => .error (.within rest .trailingCharacters)

/-- Reads the items of a list, at most `fuel` of them, up to the closing bracket. -/
def items {α : Type} (item : List Char → Except Fault (α × List Char)) :
    Nat → Bool → List Char → Except Fault (List α × List Char)
  | 0, _, _ => .error (.before [] .eofInList)
  | fuel + 1, first, rest => do
    let (more, rest) ← nextItem first rest
    if more then
      let (value, rest) ← item rest
      let (values, rest) ← items item fuel false rest
      .ok (value :: values, rest)
    else .ok ([], rest)

/-- Reads the fields of an object, at most `fuel` of them, up to the closing brace.  After each key
the reader `field` takes over, with what the fields before have come to. -/
def fields {σ : Type} (field : σ → String → List Char → Except Fault (σ × List Char)) :
    Nat → Bool → σ → List Char → Except Fault (σ × List Char)
  | 0, _, _, _ => .error (.before [] .eofInObject)
  | fuel + 1, first, state, rest => do
    let (more, rest) ← nextKey first rest
    if more then
      let (key, rest) ← string rest
      let (state, rest) ← field state key rest
      fields field fuel false state rest
    else .ok (state, rest)

/-- Reads the value of a field and puts the field in front of those before it. -/
def addField (value : List Char → Except Fault (Value × List Char))
    (before : List (String × Value)) (key : String) (rest : List Char) :
    Except Fault (List (String × Value) × List Char) := do
  let rest ← colon rest
  let (content, rest) ← value rest
  .ok ((key, content) :: before, rest)

/-- Reads a value in which lists and objects are nested at most `depth` deep. -/
def value (depth : Nat) (rest : List Char) : Except Fault (Value × List Char) :=
  let rest := skipSpace rest
  match rest with
  | [] => .error (.before [] .eofInValue)
  | 'n' :: after => do
    let after ← keyword ['u', 'l', 'l'] after
    .ok (.null, after)
  | 't' :: after => do
    let after ← keyword ['r', 'u', 'e'] after
    .ok (.bool true, after)
  | 'f' :: after => do
    let after ← keyword ['a', 'l', 's', 'e'] after
    .ok (.bool false, after)
  | '"' :: after => do
    let (text, after) ← string after
    .ok (.string text, after)
  | '[' :: after =>
    match depth with
    | 0 => .error (.within rest .recursionLimit)
    | depth + 1 => do
      let (values, after) ← items (value depth) (after.length + 1) true after
      let after ← endList after
      .ok (.array values, after)
  | '\x7b' :: after =>
    match depth with
    | 0 => .error (.within rest .recursionLimit)
    | depth + 1 => do
      let (entries, after) ← fields (addField (value depth)) (after.length + 1) true [] after
      let after ← endObject after
      .ok (.object entries.reverse, after)
  | c :: _ =>
    if c = '-' || c.isDigit then number rest else .error (.within rest .expectedValue)

/-- How deep lists and objects may be nested. -/
def nestingLimit : Nat := 127

end DomTemplate.Json

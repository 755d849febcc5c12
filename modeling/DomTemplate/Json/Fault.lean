import DomTemplate.Text.Lines

/-!
# Faults in JSON texts

A fault has a cause and a place.  The place is kept as the number of bytes that are left after it,
so that a reader needs to know nothing but the rest of its text.
-/

namespace DomTemplate.Json

inductive Cause where
  | eofInValue
  | eofInString
  | eofInList
  | eofInObject
  | expectedValue
  | expectedIdent
  | expectedColon
  | expectedListCommaOrEnd
  | expectedObjectCommaOrEnd
  | trailingComma
  | trailingCharacters
  | keyMustBeString
  | invalidNumber
  | numberOutOfRange
  | invalidEscape
  | controlCharacter
  | loneSurrogate
  | unfinishedSurrogate
  | recursionLimit
  /-- a value of the wrong sort -/
  | invalidType (found expected : String)
  /-- a value of the right sort that is out of range -/
  | invalidValue (found expected : String)
  | invalidLength (length : Nat) (expected : String)
  | unknownVariant (name : String) (known : List String)
  | noVariant (type : String)
  | missingField (name : String)
  | duplicateField (name : String)

/-- The names a message offers. -/
def oneOf (names : List String) : String :=
  match names.map fun name => "`" ++ name ++ "`" with
  | [first, second] => "expected " ++ first ++ " or " ++ second
  | names => "expected one of " ++ ", ".intercalate names

/-- A number of elements. -/
def elements (count : Nat) : String :=
  if count = 1 then "1 element" else toString count ++ " elements"

def Cause.message : Cause → String
  | eofInValue => "EOF while parsing a value"
  | eofInString => "EOF while parsing a string"
  | eofInList => "EOF while parsing a list"
  | eofInObject => "EOF while parsing an object"
  | expectedValue => "expected value"
  | expectedIdent => "expected ident"
  | expectedColon => "expected `:`"
  | expectedListCommaOrEnd => "expected `,` or `]`"
  | expectedObjectCommaOrEnd => "expected `,` or `\x7d`"
  | trailingComma => "trailing comma"
  | trailingCharacters => "trailing characters"
  | keyMustBeString => "key must be a string"
  | invalidNumber => "invalid number"
  | numberOutOfRange => "number out of range"
  | invalidEscape => "invalid escape"
  | controlCharacter => "control character (\\u0000-\\u001F) found while parsing a string"
  | loneSurrogate => "lone leading surrogate in hex escape"
  | unfinishedSurrogate => "unexpected end of hex escape"
  | recursionLimit => "recursion limit exceeded"
  | invalidType found expected => "invalid type: " ++ found ++ ", expected " ++ expected
  | invalidValue found expected => "invalid value: " ++ found ++ ", expected " ++ expected
  | invalidLength length expected =>
    "invalid length " ++ toString length ++ ", expected " ++ expected
  | unknownVariant name known => "unknown variant `" ++ name ++ "`, " ++ oneOf known
  | noVariant type => "data did not match any variant of untagged enum " ++ type
  | missingField name => "missing field `" ++ name ++ "`"
  | duplicateField name => "duplicate field `" ++ name ++ "`"

structure Fault where
  cause : Cause
  /-- how many bytes of the text are left after the place of the fault -/
  left : Nat

namespace Fault

/-- A fault right before the rest of a text. -/
def before (rest : List Char) (cause : Cause) : Fault :=
  ⟨cause, Text.byteLength rest⟩

/-- A fault one byte into the rest of a text, or at the end of the text. -/
def within (rest : List Char) (cause : Cause) : Fault :=
  ⟨cause, Text.byteLength rest - 1⟩

/-- The line and the column of a byte offset.  Lines count from 1; a column is the number of bytes
before the offset in its line. -/
def lineColumn (line column : Nat) : Nat → List Char → Nat × Nat
  | _, [] => (line, column)
  | offset, c :: rest =>
    if offset < c.utf8Size then (line, column + offset)
    else if c = '\n' then lineColumn (line + 1) 0 (offset - 1) rest
    else lineColumn line (column + c.utf8Size) (offset - c.utf8Size) rest

/-- The line and the column of a fault in its source. -/
def position (fault : Fault) (source : List Char) : Nat × Nat :=
  lineColumn 1 0 (Text.byteLength source - fault.left) source

/-- The message of a fault with its place. -/
def message (fault : Fault) (source : List Char) : String :=
  let (line, column) := fault.position source
  fault.cause.message ++ " at line " ++ toString line ++ " column " ++ toString column

end Fault

end DomTemplate.Json

import DomTemplate.Json.Value

/-!
# Writing JSON values

Values are written with one item or field to a line, indented by two spaces for each level.  Empty
lists and objects stay on one line.
-/

namespace DomTemplate.Json

/-- A character inside a written string.  Quotes, backslashes and control characters are escaped. -/
def writtenChar (c : Char) : List Char :=
  if c = '"' then ['\\', '"']
  else if c = '\\' then ['\\', '\\']
  else if c = '\x08' then ['\\', 'b']
  else if c = '\x0c' then ['\\', 'f']
  else if c = '\n' then ['\\', 'n']
  else if c = '\r' then ['\\', 'r']
  else if c = '\t' then ['\\', 't']
  else if c.toNat < 0x20 then
    ['\\', 'u', '0', '0', Nat.digitChar (c.toNat / 16), Nat.digitChar (c.toNat % 16)]
  else [c]

def writtenString (text : String) : List Char :=
  '"' :: text.toList.flatMap writtenChar ++ ['"']

def writtenInteger (n : Int) : List Char :=
  if n < 0 then '-' :: Nat.toDigits 10 n.natAbs else Nat.toDigits 10 n.natAbs

/-- A line feed and the indentation of a level. -/
def newLine (level : Nat) : List Char :=
  '\n' :: List.replicate (2 * level) ' '

namespace Value

mutual

/-- The text of a value that stands at a level. -/
def pretty (level : Nat) : Value → List Char
  | null => ['n', 'u', 'l', 'l']
  | bool true => ['t', 'r', 'u', 'e']
  | bool false => ['f', 'a', 'l', 's', 'e']
  | integer n => writtenInteger n
  | float x => (Decimal.literal x).toList
  | string text => writtenString text
  | array [] => ['[', ']']
  | array (item :: items) =>
    '[' :: newLine (level + 1) ++ pretty (level + 1) item ++ prettyItems (level + 1) items ++
      newLine level ++ [']']
  | object [] => ['\x7b', '\x7d']
  | object (field :: fields) =>
    '\x7b' :: newLine (level + 1) ++ prettyField (level + 1) field ++
      prettyFields (level + 1) fields ++ newLine level ++ ['\x7d']

/-- The items of a list after the first. -/
def prettyItems (level : Nat) : List Value → List Char
  | [] => []
  | item :: items => ',' :: newLine level ++ pretty level item ++ prettyItems level items

/-- A field of an object. -/
def prettyField (level : Nat) : String × Value → List Char
  | (key, value) => writtenString key ++ [':', ' '] ++ pretty level value

/-- The fields of an object after the first. -/
def prettyFields (level : Nat) : List (String × Value) → List Char
  | [] => []
  | field :: fields => ',' :: newLine level ++ prettyField level field ++ prettyFields level fields

end

/-- The text of a value. -/
def toText (value : Value) : String :=
  String.ofList (value.pretty 0)

end Value

end DomTemplate.Json

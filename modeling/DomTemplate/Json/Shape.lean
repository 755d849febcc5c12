import DomTemplate.Json.Fault
import DomTemplate.Json.Value

/-!
# Reading data out of JSON values

Each reader takes a value and gives the datum it stands for, or the cause why it stands for none.
A record may be written as an object, with its fields in any order and unknown ones ignored, or as
the list of its fields in the order of their declaration.
-/

namespace DomTemplate.Json

/-- The variant of a name. -/
def variant {α : Type} (variants : List (String × α)) (name : String) : Except Cause α :=
  match variants.lookup name with
  | some a => .ok a
  | none => .error (.unknownVariant name (variants.map Prod.fst))

/-- What a record in list form is missing: it has only `length` of its `count` fields. -/
def tooShort {α : Type} (record : String) (length count : Nat) : Except Cause α :=
  .error (.invalidLength length (record ++ " with " ++ elements count))

/-- What a record in list form has too much: `length` items for `count` fields. -/
def tooLong {α : Type} (length count : Nat) : Except Cause α :=
  .error (.invalidLength length (elements count ++ " in sequence"))

/-- Sets a field that must not have been set before. -/
def setOnce {α : Type} (name : String) (old : Option α) (new : Except Cause α) :
    Except Cause (Option α) :=
  match old with
  | some _ => .error (.duplicateField name)
  | none => new.map some

/-- The value of a field that has to be there. -/
def required {α : Type} (name : String) : Option α → Except Cause α
  | some a => .ok a
  | none => .error (.missingField name)

namespace Value

def mismatch {α : Type} (value : Value) (expected : String) : Except Cause α :=
  .error (.invalidType value.describe expected)

def asString : Value → Except Cause String
  | string text => .ok text
  | value => value.mismatch "a string"

/-- An unsigned integer of 32 bits. -/
def asWord : Value → Except Cause UInt32
  | integer n =>
    if 0 ≤ n && n < UInt32.size then .ok (UInt32.ofNat n.toNat)
    else .error (.invalidValue (integer n).describe "u32")
  | value => value.mismatch "u32"

/-- A list, read item by item. -/
def asList {α : Type} (item : Value → Except Cause α) : Value → Except Cause (List α)
  | array items => items.mapM item
  | value => value.mismatch "a sequence"

/-- No data: null, or an object without fields. -/
def asUnit : Value → Except Cause Unit
  | null => .ok ()
  | object [] => .ok ()
  | value => value.mismatch "unit"

/-- A variant without data: its name, or an object with its name as the only key and no data under
it. -/
def asVariant {α : Type} (variants : List (String × α)) : Value → Except Cause α
  | string name => variant variants name
  | object [(name, content)] => do
    let a ← variant variants name
    let _ ← content.asUnit
    .ok a
  | object _ => .error (.invalidValue "map" "map with a single key")
  | value => value.mismatch "string or map"

/-- The tag of a node inside a value: a name, or the position of the name among the variants. -/
def asTag {α : Type} (variants : List (String × α)) : Value → Except Cause α
  | string name => variant variants name
  | integer n =>
    if n < 0 then (integer n).mismatch "variant identifier"
    else
      match variants[n.toNat]? with
      | some (_, a) => .ok a
      | none =>
        .error (.invalidValue (integer n).describe
          ("variant index 0 <= i < " ++ toString variants.length))
  | value => value.mismatch "variant identifier"

/-- The field of an object, which must not occur twice; other fields are ignored. -/
def soleField {α : Type} (name : String) (read : Value → Except Cause α) :
    Option α → List (String × Value) → Except Cause (Option α)
  | found, [] => .ok found
  | found, (key, value) :: rest =>
    if key = name then do
      let found ← setOnce name found (read value)
      soleField name read found rest
    else soleField name read found rest

/-- A record with one field. -/
def asSingle {α : Type} (record name : String) (read : Value → Except Cause α) :
    Value → Except Cause α
  | array [] => tooShort record 0 1
  | array (item :: rest) => do
    let a ← read item
    if rest.isEmpty then .ok a else tooLong (rest.length + 1) 1
  | object fields => do
    let found ← soleField name read none fields
    required name found
  | value => value.mismatch record

/-- The tag of a node in object form: the field `type`, which must not occur twice. -/
def tagField {α : Type} (variants : List (String × α)) (fields : List (String × Value)) :
    Except Cause α := do
  let found ← soleField "type" (asTag variants) none fields
  required "type" found

end Value

end DomTemplate.Json

import DomTemplate.Decimal.Literal
import DomTemplate.Text.Quoted

/-!
# JSON values

Objects keep their fields in the order of the text, repetitions included, because it decides which
of several faults is reported.  Integers are those written without fraction and exponent that fit
64 bits; every other number is a binary64 number.
-/

namespace DomTemplate.Json

inductive Value where
  | null
  | bool (value : Bool)
  | integer (value : Int)
  | float (value : Float)
  | string (value : String)
  | array (items : List Value)
  | object (fields : List (String × Value))
deriving Inhabited

/-- How messages name a value that they did not expect. -/
def Value.describe : Value → String
  | null => "null"
  | bool true => "boolean `true`"
  | bool false => "boolean `false`"
  | integer value => "integer `" ++ toString value ++ "`"
  | float value => "floating point `" ++ Decimal.literal value ++ "`"
  | string value => "string " ++ Text.quoted value
  | array _ => "sequence"
  | object _ => "map"

end DomTemplate.Json

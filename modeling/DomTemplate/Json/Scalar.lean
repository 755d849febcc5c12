import DomTemplate.Json.Fault
import DomTemplate.Json.Value

/-!
# Reading JSON scalars

Readers take the rest of a text and give a value with what is left of it.
-/

namespace DomTemplate.Json

/-- The white space that JSON allows between tokens. -/
def isSpace (c : Char) : Bool :=
  c = ' ' || c = '\n' || c = '\t' || c = '\r'

def skipSpace (rest : List Char) : List Char :=
  rest.dropWhile isSpace

/-- Reads the given characters, the tail of a keyword. -/
def keyword : List Char → List Char → Except Fault (List Char)
  | [], rest => .ok rest
  | _ :: _, [] => .error (.before [] .eofInValue)
  | expected :: more, c :: rest =>
    if c = expected then keyword more rest else .error (.within (c :: rest) .expectedIdent)

/-! ### Numbers -/

def digitValue (c : Char) : Nat :=
  c.toNat - '0'.toNat

/-- Appends digits to a number for as long as it fits 64 bits.  The digits left over are given
back. -/
def absorb (n : Nat) : List Char → Nat × List Char
  | [] => (n, [])
  | d :: digits =>
    if n * 10 + digitValue d < UInt64.size then absorb (n * 10 + digitValue d) digits
    else (n, d :: digits)

/-- Reads the digits of an exponent.  Beyond 31 bits there is no exponent, and the digits after the
one that led there are given back. -/
def absorbExponent (n : Nat) : List Char → Option Nat × List Char
  | [] => (some n, [])
  | d :: digits =>
    if n * 10 + digitValue d < Nat.pow 2 31 then absorbExponent (n * 10 + digitValue d) digits
    else (none, digits)

/-- The binary64 number nearest to a power of ten. -/
def powerOfTen (exponent : Nat) : Float :=
  Float.ofScientific 1 false exponent

/-- Divides by `10 ^ exponent`, in steps that a binary64 number can hold. -/
def shrink (x : Float) (exponent : Nat) : Float :=
  if exponent ≤ 308 then x / powerOfTen exponent
  else if x == 0 then x
  else shrink (x / powerOfTen 308) (exponent - 308)
termination_by exponent

/-- `significand * 10 ^ exponent`, unless it is too large. -/
def scale? (significand : Nat) (exponent : Int) : Option Float :=
  let x := Float.ofNat significand
  if exponent < 0 then some (shrink x exponent.natAbs)
  else if exponent ≤ 308 then
    let y := x * powerOfTen exponent.toNat
    if y.isInf then none else some y
  else if x == 0 then some x
  else none

def signed (negative : Bool) (x : Float) : Float :=
  if negative then -x else x

/-- A number with fraction, exponent or too many digits. -/
def floatNumber (negative : Bool) (significand : Nat) (exponent : Int) (rest : List Char) :
    Except Fault (Value × List Char) :=
  match scale? significand exponent with
  | some x => .ok (.float (signed negative x), rest)
  | none => .error (.before rest .numberOutOfRange)

/-- A number whose exponent starts after the mark `e`.  An exponent of more than 31 bits is out of
range, or makes the number zero. -/
def exponentPart (negative : Bool) (significand : Nat) (exponent : Int) (rest : List Char) :
    Except Fault (Value × List Char) :=
  let (down, rest) :=
    match rest with
    | '+' :: rest => (false, rest)
    | '-' :: rest => (true, rest)
    | rest => (false, rest)
  match rest with
  | [] => .error (.before [] .eofInValue)
  | c :: _ =>
    if !c.isDigit then .error (.within rest .invalidNumber)
    else
      let after := rest.dropWhile Char.isDigit
      match absorbExponent 0 (rest.takeWhile Char.isDigit) with
      | (some n, _) =>
        floatNumber negative significand (if down then exponent - n else exponent + n) after
      | (none, unread) =>
        if significand ≠ 0 && !down then .error (.before (unread ++ after) .numberOutOfRange)
        else .ok (.float (signed negative 0), after)

/-- A number whose fraction starts after the point.  Digits that do not fit are dropped. -/
def fractionPart (negative : Bool) (significand : Nat) (exponent : Int) (rest : List Char) :
    Except Fault (Value × List Char) :=
  let digits := rest.takeWhile Char.isDigit
  let after := rest.dropWhile Char.isDigit
  if digits.isEmpty then
    .error (.within rest (if rest.isEmpty then .eofInValue else .invalidNumber))
  else
    let (significand, dropped) := absorb significand digits
    let exponent := exponent - (digits.length - dropped.length : Nat)
    match after with
    | 'e' :: after => exponentPart negative significand exponent after
    | 'E' :: after => exponentPart negative significand exponent after
    | _ => floatNumber negative significand exponent after

/-- A number whose integral digits have been read; `dropped` of them did not fit 64 bits.  Negative
integers go down to `-2 ^ 63`, and a negative zero is no integer. -/
def numberPart (negative : Bool) (significand dropped : Nat) (rest : List Char) :
    Except Fault (Value × List Char) :=
  match rest with
  | '.' :: rest => fractionPart negative significand dropped rest
  | 'e' :: rest => exponentPart negative significand dropped rest
  | 'E' :: rest => exponentPart negative significand dropped rest
  | _ =>
    if 0 < dropped then floatNumber negative significand dropped rest
    else if !negative then .ok (.integer significand, rest)
    else if significand = 0 || Nat.pow 2 63 < significand then
      .ok (.float (-Float.ofNat significand), rest)
    else .ok (.integer (-(significand : Int)), rest)

/-- Reads a number without its sign. -/
def unsignedNumber (negative : Bool) (rest : List Char) : Except Fault (Value × List Char) :=
  match rest with
  | [] => .error (.before [] .eofInValue)
  | '0' :: after =>
    match after with
    | d :: _ =>
      if d.isDigit then .error (.within after .invalidNumber) else numberPart negative 0 0 after
    | [] => numberPart negative 0 0 after
  | c :: _ =>
    if !c.isDigit then .error (.within rest .invalidNumber)
    else
      let (significand, dropped) := absorb 0 (rest.takeWhile Char.isDigit)
      numberPart negative significand dropped.length (rest.dropWhile Char.isDigit)

/-- Reads a number. -/
def number (rest : List Char) : Except Fault (Value × List Char) :=
  match rest with
  | '-' :: rest => unsignedNumber true rest
  | rest => unsignedNumber false rest

/-! ### Strings -/

def hexValue? (c : Char) : Option Nat :=
  if c.isDigit then some (c.toNat - '0'.toNat)
  else if 'a' ≤ c && c ≤ 'f' then some (c.toNat - 'a'.toNat + 10)
  else if 'A' ≤ c && c ≤ 'F' then some (c.toNat - 'A'.toNat + 10)
  else none

/-- Reads four digits in base sixteen.  If one is amiss, all four bytes count as read. -/
def fourHex (rest : List Char) : Except Fault (Nat × List Char) :=
  if Text.byteLength (rest.take 4) < 4 then .error (.before [] .eofInString)
  else
    match (rest.take 4).mapM hexValue? with
    | some digits => .ok (digits.foldl (fun n d => n * 16 + d) 0, rest.drop 4)
    | none => .error ⟨.invalidEscape, Text.byteLength rest - 4⟩

def isHighSurrogate (n : Nat) : Bool :=
  0xd800 ≤ n && n ≤ 0xdbff

def isLowSurrogate (n : Nat) : Bool :=
  0xdc00 ≤ n && n ≤ 0xdfff

/-- Reads the second half of a surrogate pair. -/
def lowSurrogate (high : Nat) (rest : List Char) : Except Fault (Char × List Char) :=
  match rest with
  | [] => .error (.before [] .eofInString)
  | '\\' :: rest =>
    match rest with
    | [] => .error (.before [] .eofInString)
    | 'u' :: rest => do
      let (low, rest) ← fourHex rest
      if isLowSurrogate low then
        .ok (Char.ofNat ((high - 0xd800) * 1024 + (low - 0xdc00) + 0x10000), rest)
      else .error (.before rest .loneSurrogate)
    | _ => .error (.within rest .unfinishedSurrogate)
  | _ => .error (.within rest .unfinishedSurrogate)

/-- Reads an escaped character after its backslash. -/
def escape (rest : List Char) : Except Fault (Char × List Char) :=
  match rest with
  | [] => .error (.before [] .eofInString)
  | '"' :: rest => .ok ('"', rest)
  | '\\' :: rest => .ok ('\\', rest)
  | '/' :: rest => .ok ('/', rest)
  | 'b' :: rest => .ok ('\x08', rest)
  | 'f' :: rest => .ok ('\x0c', rest)
  | 'n' :: rest => .ok ('\n', rest)
  | 'r' :: rest => .ok ('\r', rest)
  | 't' :: rest => .ok ('\t', rest)
  | 'u' :: rest => do
    let (n, rest) ← fourHex rest
    if isLowSurrogate n then .error (.before rest .loneSurrogate)
    else if isHighSurrogate n then lowSurrogate n rest
    else .ok (Char.ofNat n, rest)
  | _ => .error (.within rest .invalidEscape)

/-- Reads the characters of a string after its opening quote, at most `fuel` of them. -/
def characters : Nat → List Char → Except Fault (List Char × List Char)
  | 0, _ => .error (.before [] .eofInString)
  | fuel + 1, rest =>
    match rest with
    | [] => .error (.before [] .eofInString)
    | '"' :: rest => .ok ([], rest)
    | '\\' :: rest => do
      let (c, rest) ← escape rest
      let (more, rest) ← characters fuel rest
      .ok (c :: more, rest)
    | c :: after =>
      if c.toNat < 0x20 then .error (.within rest .controlCharacter)
      else do
        let (more, after) ← characters fuel after
        .ok (c :: more, after)

/-- Reads a string after its opening quote. -/
def string (rest : List Char) : Except Fault (String × List Char) := do
  let (text, rest) ← characters (rest.length + 1) rest
  .ok (String.ofList text, rest)

end DomTemplate.Json

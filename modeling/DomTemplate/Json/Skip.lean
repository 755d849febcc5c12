import DomTemplate.Json.Reader

/-!
# Skipping JSON values

A value that nobody asks for is skipped without building it.  Skipping is laxer than reading: it
takes any depth of nesting, numbers of any size and unpaired surrogates.
-/

namespace DomTemplate.Json

/-- Skips a string after its opening quote, at most `fuel` characters of it. -/
def skipCharacters : Nat → List Char → Except Fault (List Char)
  | 0, _ => .error (.before [] .eofInString)
  | fuel + 1, rest =>
    match rest with
    | [] => .error (.before [] .eofInString)
    | '"' :: rest => .ok rest
    | '\\' :: rest =>
      match rest with
      | [] => .error (.before [] .eofInString)
      | 'u' :: rest => do
        let (_, rest) ← fourHex rest
        skipCharacters fuel rest
      | c :: after =>
        if ['"', '\\', '/', 'b', 'f', 'n', 'r', 't'].contains c then skipCharacters fuel after
        else .error (.within rest .invalidEscape)
    | c :: after =>
      if c.toNat < 0x20 then .error (.before rest .controlCharacter) else skipCharacters fuel after

/-- Skips a string after its opening quote. -/
def skipString (rest : List Char) : Except Fault (List Char) :=
  skipCharacters (rest.length + 1) rest

def startsWithDigit : List Char → Bool
  | c :: _ => c.isDigit
  | [] => false

/-- Skips the integral digits of a number. -/
def skipIntegral (rest : List Char) : Except Fault (List Char) :=
  match rest with
  | [] => .error (.before [] .invalidNumber)
  | '0' :: after =>
    if startsWithDigit after then .error (.within after .invalidNumber) else .ok after
  | c :: _ =>
    if c.isDigit then .ok (rest.dropWhile Char.isDigit) else .error (.within rest .invalidNumber)

/-- Skips the fraction of a number, if it has one. -/
def skipFraction (rest : List Char) : Except Fault (List Char) :=
  match rest with
  | '.' :: after =>
    if startsWithDigit after then .ok (after.dropWhile Char.isDigit)
    else .error (.within after .invalidNumber)
  | _ => .ok rest

def skipSign : List Char → List Char
  | '+' :: rest => rest
  | '-' :: rest => rest
  | rest => rest

/-- Skips the exponent of a number, if it has one. -/
def skipExponent (rest : List Char) : Except Fault (List Char) :=
  match rest with
  | c :: after =>
    if c = 'e' || c = 'E' then
      let after := skipSign after
      if startsWithDigit after then .ok (after.dropWhile Char.isDigit)
      else .error (.within after .invalidNumber)
    else .ok rest
  | [] => .ok []

/-- Skips a number. -/
def skipNumber (rest : List Char) : Except Fault (List Char) := do
  let rest ← skipIntegral (match rest with
    | '-' :: rest => rest
    | rest => rest)
  let rest ← skipFraction rest
  skipExponent rest

/-- An open list or object. -/
inductive Bracket where
  | list
  | object
deriving DecidableEq

namespace Bracket

def closing : Bracket → Char
  | list => ']'
  | object => '\x7d'

def eof : Bracket → Cause
  | list => .eofInList
  | object => .eofInObject

def expected : Bracket → Cause
  | list => .expectedListCommaOrEnd
  | object => .expectedObjectCommaOrEnd

end Bracket

/-- Skips the key of a field and its colon, if the innermost bracket is an object. -/
def skipKey (bracket : Bracket) (rest : List Char) : Except Fault (List Char) :=
  match bracket with
  | .list => .ok rest
  | .object =>
    let rest := skipSpace rest
    match rest with
    | [] => .error (.before [] .eofInObject)
    | '"' :: rest => do
      let rest ← skipString rest
      colon rest
    | _ => .error (.within rest .keyMustBeString)

/-- Skips a value that is neither a list nor an object; `rest` starts with it. -/
def skipScalar (rest : List Char) : Except Fault (List Char) :=
  match rest with
  | [] => .error (.before [] .eofInValue)
  | 'n' :: after => keyword ['u', 'l', 'l'] after
  | 't' :: after => keyword ['r', 'u', 'e'] after
  | 'f' :: after => keyword ['a', 'l', 's', 'e'] after
  | '"' :: after => skipString after
  | c :: _ =>
    if c = '-' || c.isDigit then skipNumber rest else .error (.within rest .expectedValue)

/-- Where the skipping of nested values stands. -/
inductive SkipState where
  /-- before a value -/
  | value
  /-- behind a value -/
  | behind
  /-- behind an opening bracket -/
  | opened
deriving DecidableEq

/-- Skips on with the given brackets open, the innermost first, in at most `fuel` steps. -/
def skipOn : Nat → SkipState → List Bracket → List Char → Except Fault (List Char)
  | 0, _, _, _ => .error (.before [] .eofInValue)
  | fuel + 1, .value, brackets, rest =>
    let rest := skipSpace rest
    match rest with
    | '[' :: after => skipOn fuel .opened (.list :: brackets) after
    | '\x7b' :: after => skipOn fuel .opened (.object :: brackets) after
    | _ => do
      let rest ← skipScalar rest
      skipOn fuel .behind brackets rest
  | _ + 1, _, [], rest => .ok rest
  | fuel + 1, state, bracket :: outer, rest =>
    let rest := skipSpace rest
    match rest with
    | [] => .error (.before [] bracket.eof)
    | c :: after =>
      if c = ',' && state = .behind then do
        let after ← skipKey bracket after
        skipOn fuel .value (bracket :: outer) after
      else if c = bracket.closing then skipOn fuel .behind outer after
      else if state = .behind then .error (.within rest bracket.expected)
      else do
        let rest ← skipKey bracket rest
        skipOn fuel .value (bracket :: outer) rest

/-- Skips one value. -/
def skip (rest : List Char) : Except Fault (List Char) :=
  skipOn (2 * rest.length + 2) .value [] rest

end DomTemplate.Json

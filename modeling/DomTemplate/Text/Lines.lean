/-!
# Lines, pieces and byte lengths of a text

What only looks for one item is stated for lists of any kind, since paths are lists of bytes.
-/

namespace DomTemplate.Text

/-- The number of bytes of a text in UTF-8. -/
def byteLength : List Char → Nat
  | [] => 0
  | c :: rest => c.utf8Size + byteLength rest

theorem byteLength_append (first second : List Char) :
    byteLength (first ++ second) = byteLength first + byteLength second := by
  induction first with
  | nil => simp [byteLength]
  | cons c rest ih => simp only [List.cons_append, byteLength, ih, Nat.add_assoc]

/-- The lines of a text, each with its line feed.  Only the last may lack one, and no line is
empty, so the lines concatenate to the text. -/
def rawLines : List Char → List (List Char)
  | [] => []
  | '\n' :: rest => ['\n'] :: rawLines rest
  | c :: rest =>
    match rawLines rest with
    | [] => [[c]]
    | line :: lines => (c :: line) :: lines

/-- Removes a line's terminator: a line feed, and one carriage return right before it. -/
def dropTerminator (line : List Char) : List Char :=
  match line.reverse with
  | '\n' :: '\r' :: rest => rest.reverse
  | '\n' :: rest => rest.reverse
  | _ => line

def lines (text : List Char) : List (List Char) :=
  (rawLines text).map dropTerminator

variable {α : Type} [DecidableEq α]

/-- The pieces between the occurrences of a separator.  There is always at least one. -/
def pieces (separator : α) : List α → List (List α)
  | [] => [[]]
  | c :: rest =>
    if c = separator then [] :: pieces separator rest
    else
      match pieces separator rest with
      | [] => [[c]]
      | piece :: more => (c :: piece) :: more

/-- Puts a separator between the pieces. -/
def join (separator : α) : List (List α) → List α
  | [] => []
  | [piece] => piece
  | piece :: more => piece ++ separator :: join separator more

/-- Splits a text around the first occurrence of a separator. -/
def splitOnce (separator : α) : List α → Option (List α × List α)
  | [] => none
  | c :: rest =>
    if c = separator then some ([], rest)
    else (splitOnce separator rest).map fun (before, after) => (c :: before, after)

theorem pieces_ne_nil (separator : α) (text : List α) : pieces separator text ≠ [] := by
  cases text with
  | nil => simp [pieces]
  | cons c rest =>
    rw [pieces]
    split
    · simp
    · split <;> simp

/-- Joining the pieces again gives the text back. -/
theorem join_pieces (separator : α) (text : List α) :
    join separator (pieces separator text) = text := by
  induction text with
  | nil => rfl
  | cons c rest ih =>
    rw [pieces]
    split
    · next h =>
      subst h
      cases hp : pieces c rest with
      | nil => exact absurd hp (pieces_ne_nil c rest)
      | cons piece more => rw [hp] at ih; simp [join, ih]
    · split
      · next hp => exact absurd hp (pieces_ne_nil separator rest)
      · next piece more hp =>
        rw [hp] at ih
        cases more with
        | nil => simpa [join] using ih
        | cons next others => simpa [join] using ih

end DomTemplate.Text

import Mathlib
import DomTemplate.Json.Pretty
import DomTemplate.Json.Scalar

/-!
# Written scalars are read back

A reader of a scalar takes exactly the characters that were written and leaves the rest of the text
alone, whatever the rest is.  Only a number needs to know a little about it: a digit, a point or an
exponent mark right behind a number would be taken for a part of it.
-/

namespace DomTemplate.Json

/-! ## White space -/

/-- White space between tokens. -/
structure Gap where
  chars : List Char
  areSpaces : ∀ c ∈ chars, isSpace c = true

/-- No white space at all. -/
def Gap.none : Gap := ⟨[], by simp⟩

theorem skipSpace_gap (gap : Gap) (rest : List Char) :
    skipSpace (gap.chars ++ rest) = skipSpace rest :=
  List.dropWhile_append_of_pos gap.areSpaces

theorem skipSpace_cons {c : Char} (h : isSpace c = false) (rest : List Char) :
    skipSpace (c :: rest) = c :: rest :=
  List.dropWhile_cons_of_neg (by simp [h])

/-! ## Strings -/

theorem hexValue?_digitChar : ∀ d < 16, hexValue? (Nat.digitChar d) = some d := by decide

theorem utf8Size_digitChar : ∀ d < 16, (Nat.digitChar d).utf8Size = 1 := by decide

/-- A control character is read from the two last of its four digits. -/
theorem escape_control {c : Char} (h : c.toNat < 0x20) (rest : List Char) :
    escape ('u' :: '0' :: '0' :: Nat.digitChar (c.toNat / 16) :: Nat.digitChar (c.toNat % 16) ::
      rest) = .ok (c, rest) := by
  have hhigh := hexValue?_digitChar (c.toNat / 16) (by omega)
  have hlow := hexValue?_digitChar (c.toNat % 16) (by omega)
  have hzero : hexValue? '0' = some 0 := by decide
  have hbytes : ¬ Text.byteLength ['0', '0', Nat.digitChar (c.toNat / 16),
      Nat.digitChar (c.toNat % 16)] < 4 := by
    have hsize : '0'.utf8Size = 1 := by decide
    simp only [Text.byteLength, hsize, utf8Size_digitChar (c.toNat / 16) (by omega),
      utf8Size_digitChar (c.toNat % 16) (by omega)]
    omega
  have hvalue : c.toNat / 16 * 16 + c.toNat % 16 = c.toNat := Nat.div_add_mod' _ _
  have hsurrogate : isLowSurrogate c.toNat = false ∧ isHighSurrogate c.toNat = false := by
    simp only [isLowSurrogate, isHighSurrogate, Bool.and_eq_false_iff, decide_eq_false_iff_not]
    omega
  simp [escape, fourHex, hbytes, hhigh, hlow, hzero, hvalue, hsurrogate, bind, Except.bind]

/-- A written character is read as that character. -/
theorem characters_writtenChar (c : Char) (fuel : Nat) (rest : List Char) :
    characters (fuel + 1) (writtenChar c ++ rest) =
      (characters fuel rest).map fun (more, rest) => (c :: more, rest) := by
  have hmap : ∀ result : Except Fault (List Char × List Char),
      (result.bind fun p => .ok (c :: p.1, p.2)) = result.map fun (more, rest) => (c :: more, rest) := by
    intro result
    cases result <;> rfl
  rw [← hmap]
  unfold writtenChar
  -- Seven characters have an escape of their own, control characters share one.
  split_ifs with hquote hslash hback hfeed hline hreturn htab hcontrol
  · subst hquote; rfl
  · subst hslash; rfl
  · subst hback; rfl
  · subst hfeed; rfl
  · subst hline; rfl
  · subst hreturn; rfl
  · subst htab; rfl
  · simp only [List.cons_append, List.nil_append, characters, escape_control hcontrol]
    rfl
  · simp only [List.cons_append, List.nil_append, characters, hcontrol]
    rfl

theorem characters_written (text : List Char) {fuel : Nat} (h : text.length < fuel)
    (rest : List Char) :
    characters fuel (text.flatMap writtenChar ++ '"' :: rest) = .ok (text, rest) := by
  induction text generalizing fuel with
  | nil =>
      obtain ⟨fuel, rfl⟩ := Nat.exists_eq_succ_of_ne_zero (Nat.ne_of_gt h)
      rfl
  | cons c text ih =>
      obtain ⟨fuel, rfl⟩ := Nat.exists_eq_succ_of_ne_zero (Nat.ne_of_gt (Nat.zero_lt_of_lt h))
      rw [List.flatMap_cons, List.append_assoc, characters_writtenChar,
        ih (Nat.lt_of_succ_lt_succ h)]
      rfl

/-- A character takes at least one character to be written. -/
theorem length_le_length_written (text : List Char) :
    text.length ≤ (text.flatMap writtenChar).length := by
  have hchar : ∀ c, 1 ≤ (writtenChar c).length := by
    intro c
    unfold writtenChar
    split_ifs <;> simp
  induction text with
  | nil => exact Nat.zero_le _
  | cons c text ih =>
      rw [List.flatMap_cons, List.length_append, List.length_cons]
      have := hchar c
      omega

/-- A written string is read back from behind its opening quote. -/
theorem string_written (text : String) (rest : List Char) :
    string (text.toList.flatMap writtenChar ++ '"' :: rest) = .ok (text, rest) := by
  have hfuel : text.toList.length <
      (text.toList.flatMap writtenChar ++ '"' :: rest).length + 1 := by
    have := length_le_length_written text.toList
    rw [List.length_append]
    omega
  simp only [string, characters_written text.toList hfuel rest, bind, Except.bind,
    String.ofList_toList]

/-! ## Numbers -/

/-- No character at the start of the rest can be taken for a part of a number before it. -/
def EndsNumber (rest : List Char) : Prop :=
  ∀ c ∈ rest.head?, c.isDigit = false ∧ c ≠ '.' ∧ c ≠ 'e' ∧ c ≠ 'E'

theorem endsNumber_cons {c : Char}
    (h : c.isDigit = false ∧ c ≠ '.' ∧ c ≠ 'e' ∧ c ≠ 'E') (rest : List Char) :
    EndsNumber (c :: rest) := by
  intro d hd
  obtain rfl : c = d := by simpa using hd
  exact h

theorem endsNumber_gap (gap : Gap) {rest : List Char} (h : EndsNumber rest) :
    EndsNumber (gap.chars ++ rest) := by
  obtain ⟨chars, hspaces⟩ := gap
  cases chars with
  | nil => exact h
  | cons c chars =>
      have hspace := hspaces c List.mem_cons_self
      simp only [isSpace, Bool.or_eq_true, decide_eq_true_eq] at hspace
      refine endsNumber_cons ?_ _
      rcases hspace with ((rfl | rfl) | rfl) | rfl <;> decide

/-- Without fraction and exponent, a number is the integer that its digits make up. -/
theorem numberPart_integer (n : Nat) {rest : List Char} (h : EndsNumber rest) :
    numberPart false n 0 rest = .ok (.integer n, rest) := by
  cases rest with
  | nil => rfl
  | cons c rest =>
      obtain ⟨-, hpoint, hlower, hupper⟩ := h c rfl
      unfold numberPart
      split <;> simp_all

theorem le_ofDigitChars (digits : List Char) (n : Nat) :
    n ≤ Nat.ofDigitChars 10 digits n := by
  induction digits generalizing n with
  | nil => exact Nat.le_refl n
  | cons d digits ih =>
      rw [Nat.ofDigitChars_cons]
      exact le_trans (by omega) (ih _)

/-- Digits of a number that fits are absorbed to the last. -/
theorem absorb_eq (digits : List Char) {n : Nat}
    (h : Nat.ofDigitChars 10 digits n < UInt64.size) :
    absorb n digits = (Nat.ofDigitChars 10 digits n, []) := by
  induction digits generalizing n with
  | nil => rfl
  | cons d digits ih =>
      rw [Nat.ofDigitChars_cons] at h ⊢
      have hstep : n * 10 + digitValue d = 10 * n + (d.toNat - '0'.toNat) := by
        rw [digitValue, Nat.mul_comm]
      have hfits : 10 * n + (d.toNat - '0'.toNat) < UInt64.size :=
        Nat.lt_of_le_of_lt (le_ofDigitChars digits _) h
      rw [absorb, hstep, if_pos hfits, ih h]

/-- The digits of a positive number do not start with a zero. -/
theorem head?_toDigits_ne {n : Nat} (hn : 0 < n) : (Nat.toDigits 10 n).head? ≠ some '0' := by
  have hdigit : ∀ d < 10, 0 < d → [Nat.digitChar d].head? ≠ some '0' := by decide
  induction n using Nat.strong_induction_on with
  | _ n ih =>
    rcases Nat.lt_or_ge n 10 with hsmall | hlarge
    · rw [Nat.toDigits_of_lt_base hsmall]
      exact hdigit n hsmall hn
    · rw [Nat.toDigits_of_base_le (by omega) hlarge,
        List.head?_append_of_ne_nil _ Nat.toDigits_ne_nil]
      exact ih (n / 10) (by omega) (by omega)

/-- A number that starts with a digit other than zero takes all digits there are. -/
theorem number_digit {d : Char} (hd : d.isDigit = true) (hzero : d ≠ '0') (rest : List Char) :
    number (d :: rest) =
      numberPart false (absorb 0 ((d :: rest).takeWhile Char.isDigit)).1
        (absorb 0 ((d :: rest).takeWhile Char.isDigit)).2.length
        ((d :: rest).dropWhile Char.isDigit) := by
  have hminus : d ≠ '-' := by rintro rfl; exact absurd hd (by decide)
  unfold number
  split
  · next hcons => exact absurd (List.cons.inj hcons).1 hminus
  · unfold unsignedNumber
    split
    · next hcons => exact absurd hcons (by simp)
    · next hcons => exact absurd (List.cons.inj hcons).1 hzero
    · next hcons =>
        obtain ⟨rfl, -⟩ := List.cons.inj hcons
        rw [hd]
        rfl

/-- A written number that fits 64 bits is read back. -/
theorem number_written {n : Nat} (hn : n < UInt64.size) {rest : List Char} (h : EndsNumber rest) :
    number (Nat.toDigits 10 n ++ rest) = .ok (.integer n, rest) := by
  have hdigits : ∀ c ∈ Nat.toDigits 10 n, c.isDigit = true := fun c hc =>
    Nat.isDigit_of_mem_toDigits (by omega) (by omega) hc
  have hvalue : Nat.ofDigitChars 10 (Nat.toDigits 10 n) 0 = n :=
    Nat.ofDigitChars_toDigits (by omega) (by omega)
  have habsorb : absorb 0 (Nat.toDigits 10 n) = (n, []) := by
    rw [absorb_eq _ (by rw [hvalue]; exact hn), hvalue]
  have hrest : rest.takeWhile Char.isDigit = [] ∧ rest.dropWhile Char.isDigit = rest := by
    cases rest with
    | nil => exact ⟨rfl, rfl⟩
    | cons c rest => simp [(h c rfl).1]
  have htake : (Nat.toDigits 10 n ++ rest).takeWhile Char.isDigit = Nat.toDigits 10 n := by
    rw [List.takeWhile_append_of_pos hdigits, hrest.1, List.append_nil]
  have hdrop : (Nat.toDigits 10 n ++ rest).dropWhile Char.isDigit = rest := by
    rw [List.dropWhile_append_of_pos hdigits, hrest.2]
  rcases Nat.eq_zero_or_pos n with rfl | hpos
  · -- A zero is written with one digit, and no other may follow it.
    cases rest with
    | nil => rfl
    | cons c rest => simp [number, unsignedNumber, (h c rfl).1, numberPart_integer 0 h]
  · have hzero := head?_toDigits_ne hpos
    cases hchars : Nat.toDigits 10 n with
    | nil => exact absurd hchars Nat.toDigits_ne_nil
    | cons d digits =>
        rw [hchars] at hzero hdigits htake hdrop habsorb
        have hne : d ≠ '0' := by rintro rfl; exact hzero rfl
        rw [List.cons_append] at htake hdrop ⊢
        rw [number_digit (hdigits d List.mem_cons_self) hne, htake, hdrop, habsorb]
        exact numberPart_integer n h

end DomTemplate.Json

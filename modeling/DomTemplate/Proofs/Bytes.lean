import Mathlib
import DomTemplate.Text.Bytes

/-!
# Bytes that are text

A text can be read back from its bytes, and no byte of a character with several of them is an
ASCII character.  Reading bytes that are not text replaces some of them, but an ASCII character is
read only where it stands.
-/

namespace DomTemplate.Text

/-- The bytes of characters in UTF-8. -/
def charBytes (chars : List Char) : List UInt8 :=
  chars.flatMap String.utf8EncodeChar

theorem charBytes_cons (c : Char) (chars : List Char) :
    charBytes (c :: chars) = String.utf8EncodeChar c ++ charBytes chars :=
  List.flatMap_cons

theorem charBytes_append (first second : List Char) :
    charBytes (first ++ second) = charBytes first ++ charBytes second :=
  List.flatMap_append

theorem bytes_eq (text : String) : bytes text = charBytes text.toList := by
  rw [bytes, String.toUTF8_eq_toByteArray, ← String.utf8Encode_toList, List.utf8Encode,
    List.toList_data_toByteArray, charBytes]

theorem bytes_append (first second : String) :
    bytes (first ++ second) = bytes first ++ bytes second := by
  rw [bytes_eq, bytes_eq, bytes_eq, String.toList_append, charBytes_append]

/-! ## Reading a text back -/

theorem front?_encode_append (c : Char) (rest : List UInt8) :
    front? (String.utf8EncodeChar c ++ rest) = some c := by
  rw [front?, List.toByteArray_append]
  exact ByteArray.utf8DecodeChar?_utf8EncodeChar_append

theorem exists_encode_of_front? {bytes : List UInt8} {c : Char} (h : front? bytes = some c) :
    ∃ rest, bytes = String.utf8EncodeChar c ++ rest := by
  obtain ⟨rest, hrest⟩ := ByteArray.exists_of_utf8DecodeChar?_eq_some h
  refine ⟨rest.data.toList, ?_⟩
  have hdata := congrArg (fun all => all.data.toList) hrest
  simpa [ByteArray.data_append, List.toList_data_toByteArray] using hdata

theorem lossyChars_eq_drop (done : Nat) (bytes : List UInt8) :
    lossyChars done bytes = lossyChars 0 (bytes.drop done) := by
  induction bytes generalizing done with
  | nil => rw [List.drop_nil, lossyChars, lossyChars]
  | cons first rest ih =>
      cases done with
      | zero => rfl
      | succ done => rw [lossyChars, ih, List.drop_succ_cons]

/-- The character at the beginning is read, and then what stands behind it. -/
theorem lossyChars_encode_append (c : Char) (rest : List UInt8) :
    lossyChars 0 (String.utf8EncodeChar c ++ rest) = c :: lossyChars 0 rest := by
  have hlength := String.length_utf8EncodeChar c
  have hfront := front?_encode_append c rest
  cases hencode : String.utf8EncodeChar c with
  | nil =>
      have hpos := c.utf8Size_pos
      rw [hencode, List.length_nil] at hlength
      omega
  | cons first tail =>
      rw [hencode, List.cons_append] at hfront
      rw [hencode, List.length_cons] at hlength
      rw [List.cons_append, lossyChars, hfront]
      simp only
      rw [lossyChars_eq_drop, ← hlength, Nat.add_sub_cancel, List.drop_left]

/-- Nothing is lost of a text. -/
theorem lossy_bytes (text : String) : lossy (bytes text) = text := by
  have hchars (chars : List Char) : lossyChars 0 (charBytes chars) = chars := by
    induction chars with
    | nil => rw [charBytes, List.flatMap_nil, lossyChars]
    | cons c chars ih => rw [charBytes_cons, lossyChars_encode_append, ih]
  rw [lossy, bytes_eq, hchars, String.ofList_toList]

theorem bytes_injective : Function.Injective bytes :=
  Function.LeftInverse.injective lossy_bytes

/-- A text that bytes are read as, with something behind it, is not what these bytes spell. -/
theorem bytes_lossy_append_ne {ending : String} (hending : ending ≠ "") (bytes : List UInt8) :
    Text.bytes (lossy bytes ++ ending) ≠ bytes := by
  intro hsame
  have htext : lossy bytes ++ ending = lossy bytes := by
    conv_rhs => rw [← hsame, lossy_bytes]
  exact hending (by simpa using htext)

/-! ## ASCII characters -/

/-- Only an ASCII character has an ASCII byte. -/
theorem toNat_eq_of_mem_encode {c : Char} {byte : UInt8} (hascii : byte.toNat < 128)
    (h : byte ∈ String.utf8EncodeChar c) : byte.toNat = c.toNat := by
  have hvalue {n : Nat} (hn : n < 256) : (UInt8.ofNat n).toNat = n :=
    UInt8.toNat_ofNat_of_lt' hn
  -- The bytes of a longer character have their highest bit set.
  have hhigh {n : Nat} (hn : 128 ≤ n) (hn' : n < 256) : ¬ (UInt8.ofNat n).toNat < 128 := by
    rw [hvalue hn']
    omega
  unfold String.utf8EncodeChar at h
  simp only at h
  split_ifs at h with hone htwo hthree <;>
    simp only [List.mem_cons, List.not_mem_nil, or_false] at h
  · rw [h]
    exact hvalue (Nat.lt_of_le_of_lt hone (by decide))
  · rcases h with rfl | rfl <;> exact absurd hascii (hhigh (by omega) (by omega))
  · rcases h with rfl | rfl | rfl <;> exact absurd hascii (hhigh (by omega) (by omega))
  · rcases h with rfl | rfl | rfl | rfl <;> exact absurd hascii (hhigh (by omega) (by omega))

theorem encode_of_ascii {c : Char} (hascii : c.toNat < 128) :
    String.utf8EncodeChar c = [UInt8.ofNat c.toNat] := by
  unfold String.utf8EncodeChar
  exact if_pos (Nat.le_of_lt_succ hascii)

/-- An ASCII character that is read stands among the bytes. -/
theorem mem_of_mem_lossyChars {c : Char} (hascii : c.toNat < 128) {done : Nat}
    {bytes : List UInt8} (h : c ∈ lossyChars done bytes) : UInt8.ofNat c.toNat ∈ bytes := by
  have hreplacement : c ≠ replacement := by
    rintro rfl
    exact absurd hascii (by decide)
  induction bytes generalizing done with
  | nil =>
      rw [lossyChars] at h
      exact absurd h List.not_mem_nil
  | cons first rest ih =>
      cases done with
      | succ done => exact List.mem_cons_of_mem first (ih h)
      | zero =>
          rw [lossyChars] at h
          split at h
          · next d hfront =>
            rcases List.mem_cons.mp h with rfl | hmore
            · obtain ⟨tail, htail⟩ := exists_encode_of_front? hfront
              rw [htail, encode_of_ascii hascii]
              exact List.mem_cons_self
            · exact List.mem_cons_of_mem first (ih hmore)
          · exact List.mem_cons_of_mem first (ih ((List.mem_cons.mp h).resolve_left hreplacement))

/-- Reading bytes as text adds no ASCII byte to them. -/
theorem mem_of_mem_bytes_lossy {byte : UInt8} (hascii : byte.toNat < 128) {bytes : List UInt8}
    (h : byte ∈ Text.bytes (lossy bytes)) : byte ∈ bytes := by
  rw [bytes_eq, lossy, String.toList_ofList] at h
  obtain ⟨c, hc, hbyte⟩ := List.mem_flatMap.mp h
  have hsame := toNat_eq_of_mem_encode hascii hbyte
  have hmem := mem_of_mem_lossyChars (hsame ▸ hascii) hc
  rwa [← hsame, UInt8.ofNat_toNat] at hmem

end DomTemplate.Text

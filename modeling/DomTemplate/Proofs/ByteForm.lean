import Mathlib
import DomTemplate.Block.Digest

/-!
# The byte form of a block can be read in one way only

Every part of a byte form tells where it ends.  A number has as many bytes as its width, a list and
a text have their lengths in front, and the first byte of a shell tells its form.  So the parts can
be taken off one by one, and two blocks with the same byte form are the same.

A length has eight bytes.  Nothing is said about lists and texts that are too long for that: their
lengths are written modulo `2 ^ 64`.
-/

namespace DomTemplate

variable {α : Type}

/-! ## Parts that tell where they end -/

/-- Among the values that fit, the bytes of a value tell the value and where they end, whatever
follows them. -/
def Delimited (fits : α → Prop) (write : α → List UInt8) : Prop :=
  ∀ ⦃a b : α⦄ ⦃rest more : List UInt8⦄, fits a → fits b →
    write a ++ rest = write b ++ more → a = b ∧ rest = more

namespace Delimited

variable {fits : α → Prop} {write : α → List UInt8}

/-- Values that always have the same number of bytes need no other mark of their end. -/
theorem of_length {width : Nat} (hlength : ∀ a, (write a).length = width)
    (hinj : ∀ ⦃a b⦄, fits a → fits b → write a = write b → a = b) : Delimited fits write := by
  intro a b rest more ha hb h
  have hwidth : (write a).length = (write b).length := (hlength a).trans (hlength b).symm
  obtain ⟨hown, hrest⟩ := List.append_inj h hwidth
  exact ⟨hinj ha hb hown, hrest⟩

/-- Of two lists of the same length, the values can be taken off in turn. -/
theorem flatMap_append (hwrite : Delimited fits write) {values others : List α}
    {rest more : List UInt8} (hvalues : ∀ a ∈ values, fits a) (hothers : ∀ a ∈ others, fits a)
    (hlength : values.length = others.length)
    (h : values.flatMap write ++ rest = others.flatMap write ++ more) :
    values = others ∧ rest = more := by
  induction values generalizing others with
  | nil =>
      obtain rfl : others = [] := List.length_eq_zero_iff.mp hlength.symm
      exact ⟨rfl, h⟩
  | cons a values ih =>
      cases others with
      | nil => simp at hlength
      | cons b others =>
          obtain ⟨ha, hlater⟩ := List.forall_mem_cons.mp hvalues
          obtain ⟨hb, hlast⟩ := List.forall_mem_cons.mp hothers
          rw [List.flatMap_cons, List.flatMap_cons, List.append_assoc, List.append_assoc] at h
          obtain ⟨rfl, htail⟩ := hwrite ha hb h
          obtain ⟨rfl, hrest⟩ := ih hlater hlast (Nat.succ.inj hlength) htail
          exact ⟨rfl, hrest⟩

end Delimited

/-! ## Numbers -/

theorem length_littleEndian (width n : Nat) : (littleEndian width n).length = width := by
  induction width generalizing n with
  | zero => rfl
  | succ width ih => rw [littleEndian, List.length_cons, ih]

/-- A number is told by its bytes if there are enough of them. -/
theorem littleEndian_inj {width n m : Nat} (hn : n < 256 ^ width) (hm : m < 256 ^ width)
    (h : littleEndian width n = littleEndian width m) : n = m := by
  induction width generalizing n m with
  | zero =>
      rw [pow_zero] at hn hm
      omega
  | succ width ih =>
      rw [pow_succ] at hn hm
      obtain ⟨hlow, hhigh⟩ := List.cons.inj h
      have hquotient : n / 256 = m / 256 :=
        ih (Nat.div_lt_of_lt_mul (by omega)) (Nat.div_lt_of_lt_mul (by omega)) hhigh
      have hremainder : n % 256 = m % 256 := by
        have hbyte := congrArg UInt8.toNat hlow
        rwa [UInt8.toNat_ofNat', UInt8.toNat_ofNat'] at hbyte
      omega

namespace EncodedBlock

theorem delimited_wordBytes : Delimited (fun _ => True) wordBytes := by
  refine .of_length (fun word => length_littleEndian 4 word.toNat) ?_
  intro word other _ _ h
  exact UInt32.toNat_inj.mp (littleEndian_inj word.toNat_lt other.toNat_lt h)

theorem delimited_lengthBytes : Delimited (· < 2 ^ 64) lengthBytes := by
  refine .of_length (fun length => length_littleEndian 8 length) ?_
  intro length other hlength hother h
  exact littleEndian_inj hlength hother h

/-! ## Lists and texts -/

/-- A list is delimited by its length, provided that its entries are delimited themselves. -/
theorem delimited_list {fits : α → Prop} {write : α → List UInt8} (hwrite : Delimited fits write) :
    Delimited (fun values : List α => values.length < 2 ^ 64 ∧ ∀ a ∈ values, fits a)
      (fun values => lengthBytes values.length ++ values.flatMap write) := by
  intro values others rest more hvalues hothers h
  rw [List.append_assoc, List.append_assoc] at h
  obtain ⟨hlength, hentries⟩ := delimited_lengthBytes hvalues.1 hothers.1 h
  exact hwrite.flatMap_append hvalues.2 hothers.2 hlength hentries

theorem delimited_wordListBytes :
    Delimited (fun words : List UInt32 => words.length < 2 ^ 64) wordListBytes := by
  intro words others rest more hwords hothers h
  exact delimited_list delimited_wordBytes ⟨hwords, by simp⟩ ⟨hothers, by simp⟩ h

theorem delimited_textBytes :
    Delimited (fun text : String => text.utf8ByteSize < 2 ^ 64) textBytes := by
  intro text other rest more htext hother h
  rw [textBytes, textBytes, List.append_assoc, List.append_assoc] at h
  obtain ⟨hsize, hbytes⟩ := delimited_lengthBytes htext hother h
  have hlength : text.toUTF8.data.toList.length = other.toUTF8.data.toList.length := hsize
  obtain ⟨hdata, hrest⟩ := List.append_inj hbytes hlength
  have harray : text.toUTF8 = other.toUTF8 := ByteArray.ext (Array.toList_inj.mp hdata)
  exact ⟨String.toByteArray_inj.mp harray, hrest⟩

/-- Whether the lengths of a list of texts can be written down. -/
def TextsAreShort (texts : List String) : Prop :=
  texts.length < 2 ^ 64 ∧ ∀ text ∈ texts, text.utf8ByteSize < 2 ^ 64

instance (texts : List String) : Decidable (TextsAreShort texts) :=
  inferInstanceAs (Decidable (_ ∧ _))

theorem delimited_textListBytes : Delimited TextsAreShort textListBytes :=
  delimited_list delimited_textBytes

/-! ## Blocks -/

/-- Whether the lengths in a shell can be written down. -/
def ShellIsShort : Shell → Prop
  | .tag name => name.utf8ByteSize < 2 ^ 64
  | .chunks parts => TextsAreShort parts

instance (shell : Shell) : Decidable (ShellIsShort shell) :=
  match shell with
  | .tag name => inferInstanceAs (Decidable (name.utf8ByteSize < 2 ^ 64))
  | .chunks parts => inferInstanceAs (Decidable (TextsAreShort parts))

theorem delimited_shellBytes : Delimited ShellIsShort shellBytes := by
  intro shell other rest more hshell hother h
  -- The first byte tells a tag from a list of chunks, so only equal forms are left to compare.
  cases shell with
  | tag name =>
      cases other with
      | tag name' =>
          obtain ⟨rfl, hrest⟩ := delimited_textBytes hshell hother (List.cons.inj h).2
          exact ⟨rfl, hrest⟩
      | chunks parts => exact absurd (List.cons.inj h).1 (by decide)
  | chunks parts =>
      cases other with
      | tag name => exact absurd (List.cons.inj h).1 (by decide)
      | chunks parts' =>
          obtain ⟨rfl, hrest⟩ := delimited_textListBytes hshell hother (List.cons.inj h).2
          exact ⟨rfl, hrest⟩

/-- All lists and texts of a block have lengths that can be written down. -/
structure IsShort (block : EncodedBlock) : Prop where
  shell : ShellIsShort block.shell
  binds : block.binds.length < 2 ^ 64
  mounts : block.mounts.length < 2 ^ 64
  walk : block.walk.length < 2 ^ 64
  keys : TextsAreShort block.keys
  inputs : block.inputs.length < 2 ^ 64

/-- The fields of a block are taken off its byte form in the order in which they stand there. -/
theorem delimited_bytes : Delimited IsShort bytes := by
  intro block other rest more hblock hother h
  simp only [bytes, List.append_assoc] at h
  -- From here on `h` is about what is left of the two byte forms.
  obtain ⟨hflags, h⟩ := delimited_wordBytes trivial trivial h
  obtain ⟨hshell, h⟩ := delimited_shellBytes hblock.shell hother.shell h
  obtain ⟨hbinds, h⟩ := delimited_wordListBytes hblock.binds hother.binds h
  obtain ⟨hmounts, h⟩ := delimited_wordListBytes hblock.mounts hother.mounts h
  obtain ⟨hwalk, h⟩ := delimited_wordListBytes hblock.walk hother.walk h
  obtain ⟨hkeys, h⟩ := delimited_textListBytes hblock.keys hother.keys h
  obtain ⟨hinputs, hrest⟩ := delimited_wordListBytes hblock.inputs hother.inputs h
  refine ⟨?_, hrest⟩
  cases block
  cases other
  simp_all only

end EncodedBlock

/-- Two blocks have the same byte form if and only if they agree in every field.  So blocks that
differ have the same content hash only if the digest takes two different byte forms to one value. -/
theorem byte_form_separates_blocks (block other : EncodedBlock) (hblock : block.IsShort)
    (hother : other.IsShort) :
    (block.bytes = other.bytes ↔ block = other) ∧
      (block.contentHash = other.contentHash → block ≠ other →
        block.bytes ≠ other.bytes ∧
          Digest.Blake3.hexHash block.bytes = Digest.Blake3.hexHash other.bytes) := by
  have hbytes : block.bytes = other.bytes → block = other := by
    intro h
    have happend : block.bytes ++ [] = other.bytes ++ [] := by rw [h]
    exact (EncodedBlock.delimited_bytes hblock hother happend).1
  refine ⟨⟨hbytes, congrArg EncodedBlock.bytes⟩, ?_⟩
  intro hhash hne
  exact ⟨fun h => hne (hbytes h), hhash⟩

/-- Two blocks that differ only in where one thing ends and the next begins: a tag and a chunk, one
text and two, a word of one stream and of the next. -/
def EncodedBlock.joined : EncodedBlock :=
  ⟨65, .tag "p", [3], [], [1], ["ab"], [7]⟩

def EncodedBlock.parted : EncodedBlock :=
  ⟨65, .chunks ["p"], [], [3], [1], ["a", "b"], [7]⟩

theorem byte_form_joined_parted :
    EncodedBlock.joined.IsShort ∧ EncodedBlock.parted.IsShort ∧
      EncodedBlock.joined.bytes ≠ EncodedBlock.parted.bytes := by
  have hjoined : EncodedBlock.joined.IsShort := by
    constructor <;> decide
  have hparted : EncodedBlock.parted.IsShort := by
    constructor <;> decide
  have hdiffer : EncodedBlock.joined ≠ EncodedBlock.parted := by decide
  have hbytes := (byte_form_separates_blocks _ _ hjoined hparted).1
  exact ⟨hjoined, hparted, fun h => hdiffer (hbytes.mp h)⟩

end DomTemplate

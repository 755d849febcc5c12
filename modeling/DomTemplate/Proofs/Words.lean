import Mathlib
import DomTemplate.Block.Flags
import DomTemplate.Stream.Bind
import DomTemplate.Stream.Mount
import DomTemplate.Stream.Walk

/-!
# Operations as words

A word holds the fields of an operation side by side.  Reading a word gives an operation whose
fields fit, and an operation whose fields fit is read back from its word.  So a word stands for its
operation if and only if the fields fit.
-/

namespace DomTemplate

/-! ## Fields of a word -/

namespace Word

/-- A field that is put above the low bits of a word keeps what fits there. -/
theorem toNat_or_shiftLeft {low k : UInt32} (hk : k.toNat < 32) (hlow : low.toNat < 2 ^ k.toNat)
    (x : Nat) :
    (low ||| UInt32.ofNat x <<< k).toNat =
      low.toNat + 2 ^ k.toNat * (x % 2 ^ (32 - k.toNat)) := by
  have hsplit : 2 ^ 32 = 2 ^ k.toNat * 2 ^ (32 - k.toNat) := by
    rw [← pow_add, Nat.add_sub_of_le (Nat.le_of_lt hk)]
  have hshift : (UInt32.ofNat x <<< k).toNat = 2 ^ k.toNat * (x % 2 ^ (32 - k.toNat)) := by
    rw [UInt32.toNat_shiftLeft, UInt32.toNat_ofNat', Nat.mod_eq_of_lt hk, Nat.shiftLeft_eq,
      Nat.mul_comm, hsplit, Nat.mul_mod_mul_left, Nat.mod_mul_left_mod]
  rw [UInt32.toNat_or, hshift, Nat.lor_comm, ← Nat.two_pow_add_eq_or_of_lt hlow, Nat.add_comm]

/-- The low bits of a word. -/
theorem toNat_and_mask (word : UInt32) {n : Nat} {mask : UInt32} (hmask : mask.toNat = 2 ^ n - 1) :
    (word &&& mask).toNat = word.toNat % 2 ^ n := by
  rw [UInt32.toNat_and, hmask, Nat.and_two_pow_sub_one_eq_mod]

/-- The bits of a word above the low ones. -/
theorem toNat_shiftRight {k : UInt32} (hk : k.toNat < 32) (word : UInt32) :
    (word >>> k).toNat = word.toNat / 2 ^ k.toNat := by
  rw [UInt32.toNat_shiftRight, Nat.mod_eq_of_lt hk, Nat.shiftRight_eq_div_pow]

/-- Whether one bit of a word is set. -/
theorem and_bit_ne_zero_iff (word : UInt32) {n : Nat} {bit : UInt32} (hbit : bit.toNat = 2 ^ n) :
    word &&& bit ≠ 0 ↔ word.toNat / 2 ^ n % 2 = 1 := by
  rw [ne_eq, ← UInt32.toNat_inj, UInt32.toNat_and, hbit, Nat.and_two_pow,
    Nat.testBit_eq_decide_div_mod_eq]
  by_cases hset : word.toNat / 2 ^ n % 2 = 1
  · simp [hset]
  · simp [hset]

end Word

/-! ## Steps -/

namespace WalkOp

/-- Whether the length of a child walk has a place in a word. -/
def Fits : WalkOp → Prop
  | enter _ length => 0 < length ∧ length < 2 ^ 29
  | _ => True

instance : DecidablePred Fits
  | next => inferInstanceAs (Decidable True)
  | save => inferInstanceAs (Decidable True)
  | enter _ length => inferInstanceAs (Decidable (0 < length ∧ length < 2 ^ 29))
  | remove => inferInstanceAs (Decidable True)

theorem toNat_encode_enter (save : Bool) (length : Nat) :
    (encode (enter save length)).toNat = 2 + save.toNat + 8 * (length % 2 ^ 29) := by
  cases save with
  | false =>
      rw [encode, UInt32.or_comm]
      exact Word.toNat_or_shiftLeft (by decide) (by decide) length
  | true =>
      rw [encode, UInt32.or_comm]
      exact Word.toNat_or_shiftLeft (by decide) (by decide) length

theorem fits_decode (word : UInt32) : (decode word).Fits := by
  have hlength : (word >>> 3).toNat = word.toNat / 8 := Word.toNat_shiftRight (by decide) word
  have hword : word.toNat < 2 ^ 32 := word.toNat_lt
  rw [decode]
  split
  · split
    · trivial
    · rename_i hzero
      rw [← UInt32.toNat_inj, UInt32.toNat_zero] at hzero
      exact ⟨by omega, by omega⟩
  · split <;> trivial

theorem decode_encode {op : WalkOp} (h : op.Fits) : decode op.encode = op := by
  cases op with
  | next => decide
  | save => decide
  | remove => decide
  | enter save length =>
      obtain ⟨hpos, hlt⟩ := h
      have hword := toNat_encode_enter save length
      have hbit : save.toNat < 2 := save.toNat_lt
      rw [Nat.mod_eq_of_lt hlt] at hword
      have hlength : (encode (enter save length) >>> 3).toNat = length := by
        rw [Word.toNat_shiftRight (by decide), hword]
        show (2 + save.toNat + 8 * length) / 8 = length
        omega
      have henter : encode (enter save length) &&& 2 ≠ 0 := by
        rw [Word.and_bit_ne_zero_iff _ (n := 1) (by decide), hword]
        omega
      have hsave : (encode (enter save length) &&& 1 ≠ 0) ↔ save = true := by
        rw [Word.and_bit_ne_zero_iff _ (n := 0) (by decide), hword]
        cases save
        · simp only [Bool.toNat_false, Bool.false_eq_true, iff_false]
          omega
        · simp only [Bool.toNat_true, iff_true]
          omega
      -- A length of zero would be read as taking out a separator.
      have hzero : encode (enter save length) >>> 3 ≠ 0 := by
        intro h
        rw [h, UInt32.toNat_zero] at hlength
        omega
      rw [decode, if_pos henter, if_neg hzero, hlength]
      simp [hsave]

theorem decode_encode_iff (op : WalkOp) : decode op.encode = op ↔ op.Fits :=
  ⟨fun h => h ▸ fits_decode op.encode, decode_encode⟩

theorem map_decode_encode_iff (ops : List WalkOp) :
    (ops.map encode).map decode = ops ↔ ∀ op ∈ ops, op.Fits := by
  have hsame : (ops.map encode).map decode = ops ↔ ops.map (decode ∘ encode) = ops.map id := by
    rw [List.map_map, List.map_id]
  rw [hsame, List.map_inj_left]
  exact forall₂_congr fun op _ => decode_encode_iff op

end WalkOp

/-! ## Bindings -/

namespace BindOp

/-- Whether the fields of an operation have a place in a word. -/
def Fits : BindOp → Prop
  | setNode slot => slot < 2 ^ 23
  | common _ input => input < 2 ^ 6
  | keyed _ key input => key < 2 ^ 23 ∧ input < 2 ^ 6
  | directive input => input < 2 ^ 6

theorem toNat_pack {sort : UInt32} (hsort : sort.toNat < 8) {input : Nat} (hinput : input < 2 ^ 6)
    (data : Nat) :
    (pack sort input data).toNat = sort.toNat + 8 * input + 512 * (data % 2 ^ 23) := by
  have hlow : (sort ||| UInt32.ofNat input <<< 3).toNat = sort.toNat + 8 * input := by
    rw [Word.toNat_or_shiftLeft (by decide) hsort, Nat.mod_eq_of_lt]
    · rfl
    · exact hinput.trans (by decide)
  rw [pack, Word.toNat_or_shiftLeft (by decide), hlow]
  · rfl
  · rw [hlow]
    show sort.toNat + 8 * input < 512
    omega

/-- The fields of a word as they are read. -/
theorem fields_pack (sort : UInt32) (input data : Nat) (hsort : sort.toNat < 8)
    (hinput : input < 2 ^ 6) (hdata : data < 2 ^ 23) :
    (pack sort input data &&& 7).toNat = sort.toNat ∧
      (pack sort input data >>> 3 &&& 63).toNat = input ∧
      (pack sort input data >>> 9).toNat = data := by
  have hword := toNat_pack hsort hinput data
  rw [Nat.mod_eq_of_lt hdata] at hword
  refine ⟨?_, ?_, ?_⟩
  · rw [Word.toNat_and_mask _ (n := 3) (by decide), hword]
    omega
  · rw [Word.toNat_and_mask _ (n := 6) (by decide), Word.toNat_shiftRight (by decide), hword]
    show (sort.toNat + 8 * input + 512 * data) / 8 % 64 = input
    omega
  · rw [Word.toNat_shiftRight (by decide), hword]
    show (sort.toNat + 8 * input + 512 * data) / 512 = data
    omega

theorem fits_of_decode? {word : UInt32} {op : BindOp} (h : decode? word = some op) : op.Fits := by
  have hinput : (word >>> 3 &&& 63).toNat < 2 ^ 6 := by
    rw [Word.toNat_and_mask _ (n := 6) (by decide)]
    exact Nat.mod_lt _ (by decide)
  have hdata : (word >>> 9).toNat < 2 ^ 23 := by
    have hword : word.toNat < 2 ^ 32 := word.toNat_lt
    rw [Word.toNat_shiftRight (by decide)]
    show word.toNat / 512 < 2 ^ 23
    omega
  rw [decode?] at h
  split at h
  · cases h
    exact hdata
  · obtain ⟨property, -, rfl⟩ := Option.map_eq_some_iff.mp h
    exact hinput
  · cases h
    exact ⟨hdata, hinput⟩
  · cases h
    exact ⟨hdata, hinput⟩
  · cases h
    exact ⟨hdata, hinput⟩
  · cases h
    exact ⟨hdata, hinput⟩
  · cases h
    exact ⟨hdata, hinput⟩
  · cases h
    exact hinput

theorem decode?_encode {op : BindOp} (h : op.Fits) : decode? op.encode = some op := by
  cases op with
  | setNode slot =>
      obtain ⟨hsort, -, hslot⟩ := fields_pack 0 0 slot (by decide) (by decide) h
      simp only [encode, decode?, hsort, hslot]
      rfl
  | common property input =>
      have hcode : property.code < 2 ^ 23 := by cases property <;> decide
      obtain ⟨hsort, hinput, hdata⟩ := fields_pack 1 input property.code (by decide) h hcode
      simp only [encode, decode?, hsort, hinput, hdata]
      cases property <;> rfl
  | keyed binding key input =>
      have hcode : binding.code.toNat < 8 := by cases binding <;> decide
      obtain ⟨hsort, hinput, hkey⟩ := fields_pack binding.code input key hcode h.2 h.1
      simp only [encode, decode?, hsort, hinput, hkey]
      cases binding <;> rfl
  | directive input =>
      obtain ⟨hsort, hinput, -⟩ := fields_pack 7 input 0 (by decide) h (by decide)
      simp only [encode, decode?, hsort, hinput]
      rfl

theorem decode?_encode_iff (op : BindOp) : decode? op.encode = some op ↔ op.Fits :=
  ⟨fits_of_decode?, decode?_encode⟩

theorem map_decode?_encode_iff (ops : List BindOp) :
    (ops.map encode).map decode? = ops.map some ↔ ∀ op ∈ ops, op.Fits := by
  rw [List.map_map, List.map_inj_left]
  exact forall₂_congr fun op _ => decode?_encode_iff op

end BindOp

/-! ## Insertions -/

namespace MountOp

/-- Whether the field of an operation has a place in a word. -/
def Fits : MountOp → Prop
  | child input => input < 2 ^ 30
  | setNext slot => slot < 2 ^ 30
  | setParent slot => slot < 2 ^ 30

theorem fields_encode (sort : UInt32) (value : Nat) (hsort : sort.toNat < 4)
    (hvalue : value < 2 ^ 30) :
    ((UInt32.ofNat value <<< 2 ||| sort) &&& 3).toNat = sort.toNat ∧
      ((UInt32.ofNat value <<< 2 ||| sort) >>> 2).toNat = value := by
  have hword : (UInt32.ofNat value <<< 2 ||| sort).toNat = sort.toNat + 4 * value := by
    rw [UInt32.or_comm, Word.toNat_or_shiftLeft (by decide) hsort]
    exact congrArg (sort.toNat + 4 * ·) (Nat.mod_eq_of_lt hvalue)
  constructor
  · rw [Word.toNat_and_mask _ (n := 2) (by decide), hword]
    omega
  · rw [Word.toNat_shiftRight (by decide), hword]
    show (sort.toNat + 4 * value) / 4 = value
    omega

theorem fits_of_decode? {word : UInt32} {op : MountOp} (h : decode? word = some op) :
    op.Fits := by
  have hvalue : (word >>> 2).toNat < 2 ^ 30 := by
    have hword : word.toNat < 2 ^ 32 := word.toNat_lt
    rw [Word.toNat_shiftRight (by decide)]
    show word.toNat / 4 < 2 ^ 30
    omega
  rw [decode?] at h
  split at h
  · cases h
    exact hvalue
  · cases h
    exact hvalue
  · cases h
    exact hvalue
  · cases h

theorem decode?_encode {op : MountOp} (h : op.Fits) : decode? op.encode = some op := by
  cases op with
  | child input =>
      obtain ⟨hsort, hvalue⟩ := fields_encode 0 input (by decide) h
      rw [UInt32.or_zero] at hsort hvalue
      simp only [encode, decode?, hsort, hvalue]
      rfl
  | setNext slot =>
      obtain ⟨hsort, hvalue⟩ := fields_encode 1 slot (by decide) h
      simp only [encode, decode?, hsort, hvalue]
      rfl
  | setParent slot =>
      obtain ⟨hsort, hvalue⟩ := fields_encode 3 slot (by decide) h
      simp only [encode, decode?, hsort, hvalue]
      rfl

theorem decode?_encode_iff (op : MountOp) : decode? op.encode = some op ↔ op.Fits :=
  ⟨fits_of_decode?, decode?_encode⟩

theorem map_decode?_encode_iff (ops : List MountOp) :
    (ops.map encode).map decode? = ops.map some ↔ ∀ op ∈ ops, op.Fits := by
  rw [List.map_map, List.map_inj_left]
  exact forall₂_congr fun op _ => decode?_encode_iff op

end MountOp

/-! ## Reading what was written -/

/-- Writing the operation that a word is read as gives a word that is read as the same operation,
whatever bits of the first word were not looked at.  An operation is read back from its word if and
only if its fields fit. -/
theorem words_stand_for_fitting_operations :
    (∀ word, WalkOp.decode (WalkOp.decode word).encode = WalkOp.decode word) ∧
    (∀ word op, BindOp.decode? word = some op → BindOp.decode? op.encode = some op) ∧
    (∀ word op, MountOp.decode? word = some op → MountOp.decode? op.encode = some op) ∧
    (∀ op : WalkOp, WalkOp.decode op.encode = op ↔ op.Fits) ∧
    (∀ op : BindOp, BindOp.decode? op.encode = some op ↔ op.Fits) ∧
    ∀ op : MountOp, MountOp.decode? op.encode = some op ↔ op.Fits := by
  refine ⟨fun word => ?_, fun word op hop => ?_, fun word op hop => ?_, WalkOp.decode_encode_iff,
    BindOp.decode?_encode_iff, MountOp.decode?_encode_iff⟩
  · exact WalkOp.decode_encode (WalkOp.fits_decode word)
  · exact BindOp.decode?_encode (BindOp.fits_of_decode? hop)
  · exact MountOp.decode?_encode (MountOp.fits_of_decode? hop)

/-- Words with bits that are not looked at, and operations whose fields do not fit. -/
theorem words_with_idle_bits :
    (WalkOp.decode 15 = .enter true 1 ∧ (WalkOp.enter true 1).encode = 11 ∧
      WalkOp.decode 11 = .enter true 1) ∧
    (BindOp.decode? 1016 = some (.setNode 1) ∧ (BindOp.setNode 1).encode = 512 ∧
      BindOp.decode? 512 = some (.setNode 1)) ∧
    (MountOp.decode? 7 = some (.setParent 1) ∧ (MountOp.setParent 1).encode = 7) ∧
    WalkOp.decode (WalkOp.enter true 0).encode ≠ .enter true 0 ∧
    BindOp.decode? (BindOp.directive 64).encode ≠ some (.directive 64) ∧
    MountOp.decode? (MountOp.child (2 ^ 30)).encode ≠ some (.child (2 ^ 30)) := by
  obtain ⟨hwalk, hbind, hmount, hsteps, hbinds, hmounts⟩ := words_stand_for_fitting_operations
  have hnode : BindOp.decode? 1016 = some (.setNode 1) := by decide
  have hparent : MountOp.decode? 7 = some (.setParent 1) := by decide
  refine ⟨⟨by decide, by decide, hwalk 15⟩, ⟨hnode, by decide, hbind _ _ hnode⟩,
    ⟨hmount _ _ hparent, by decide⟩, ?_, ?_, ?_⟩
  · exact mt (hsteps _).mp (by decide)
  · exact mt (hbinds _).mp (Nat.lt_irrefl _)
  · exact mt (hmounts _).mp (Nat.lt_irrefl _)

/-! ## Headers -/

namespace Flags

theorem toNat_bits_ofCounts {walkSlots mounts : Nat} (hslots : walkSlots < 64)
    (hmounts : mounts < 64) (svg : Bool) :
    (ofCounts walkSlots mounts svg).bits.toNat = walkSlots + 64 * mounts + 4096 * svg.toNat := by
  have hsvg : (if svg then 4096 else 0 : UInt32) = UInt32.ofNat svg.toNat <<< 12 := by
    cases svg <;> decide
  have hbit : svg.toNat < 2 := svg.toNat_lt
  have hlow : (UInt32.ofNat walkSlots).toNat = walkSlots :=
    UInt32.toNat_ofNat_of_lt' (hslots.trans (by decide))
  have hcounts : (UInt32.ofNat walkSlots ||| UInt32.ofNat mounts <<< 6).toNat =
      walkSlots + 64 * mounts := by
    have hfit : (UInt32.ofNat walkSlots).toNat < 2 ^ (6 : UInt32).toNat := hlow.trans_lt hslots
    rw [Word.toNat_or_shiftLeft (by decide) hfit, hlow]
    exact congrArg (walkSlots + 64 * ·) (Nat.mod_eq_of_lt (hmounts.trans (by decide)))
  have hfit : (UInt32.ofNat walkSlots ||| UInt32.ofNat mounts <<< 6).toNat <
      2 ^ (12 : UInt32).toNat := by
    rw [hcounts]
    show walkSlots + 64 * mounts < 4096
    omega
  rw [ofCounts, hsvg, Word.toNat_or_shiftLeft (by decide) hfit, hcounts]
  exact congrArg (walkSlots + 64 * mounts + 4096 * ·)
    (Nat.mod_eq_of_lt (hbit.trans (by decide)))

/-- A header tells the number of walk slots. -/
theorem walkSlots_ofCounts {walkSlots mounts : Nat} (hslots : walkSlots < 64)
    (hmounts : mounts < 64) (svg : Bool) :
    (ofCounts walkSlots mounts svg).walkSlots = walkSlots := by
  rw [Flags.walkSlots, Word.toNat_and_mask _ (n := 6) (by decide),
    toNat_bits_ofCounts hslots hmounts]
  omega

/-- A header tells the number of insertions. -/
theorem mounts_ofCounts {walkSlots mounts : Nat} (hslots : walkSlots < 64)
    (hmounts : mounts < 64) (svg : Bool) :
    (ofCounts walkSlots mounts svg).mounts = mounts := by
  rw [Flags.mounts, Word.toNat_and_mask _ (n := 6) (by decide),
    Word.toNat_shiftRight (by decide), toNat_bits_ofCounts hslots hmounts]
  show (walkSlots + 64 * mounts + 4096 * svg.toNat) / 64 % 64 = mounts
  omega

/-- A header tells the dialect. -/
theorem isSvg_ofCounts {walkSlots mounts : Nat} (hslots : walkSlots < 64)
    (hmounts : mounts < 64) (svg : Bool) :
    (ofCounts walkSlots mounts svg).isSvg = svg := by
  have hbit : (ofCounts walkSlots mounts svg).bits &&& 4096 ≠ 0 ↔ svg = true := by
    rw [Word.and_bit_ne_zero_iff _ (n := 12) (by decide), toNat_bits_ofCounts hslots hmounts]
    cases svg
    · simp only [Bool.toNat_false, Bool.false_eq_true, iff_false]
      omega
    · simp only [Bool.toNat_true, iff_true]
      omega
  rw [Flags.isSvg, Bool.eq_iff_iff, decide_eq_true_iff]
  exact hbit

/-- A header has no bits above those of the dialect. -/
theorem testBit_ofCounts {walkSlots mounts bit : Nat} (hslots : walkSlots < 64)
    (hmounts : mounts < 64) (svg : Bool) (hbit : 12 < bit) :
    (ofCounts walkSlots mounts svg).bits.toNat.testBit bit = false := by
  have hsvg : svg.toNat < 2 := svg.toNat_lt
  have hlow : (ofCounts walkSlots mounts svg).bits.toNat < 2 ^ 13 := by
    rw [toNat_bits_ofCounts hslots hmounts]
    omega
  exact Nat.testBit_lt_two_pow (hlow.trans_le (Nat.pow_le_pow_right (by decide) hbit))

end Flags

end DomTemplate

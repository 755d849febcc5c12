import DomTemplate.Text.Bytes
import DomTemplate.Text.Lines

/-!
# Paths

Paths are strings of bytes whose parts are separated by slashes.  They need not be text.  All
operations here are lexical: they never look at files.  Empty parts and parts that are a single dot
do not count, except for a dot at the very start of a relative path.
-/

namespace DomTemplate

structure Path where
  bytes : List UInt8
deriving DecidableEq

namespace Path

/-- The path that a text spells. -/
abbrev ofText (text : String) : Path := ⟨Text.bytes text⟩

/-- A path as it is shown to a user. -/
def display (path : Path) : String :=
  Text.lossy path.bytes

def slash : UInt8 := 47

def dot : UInt8 := 46

/-- The start of a path that its parts hang on: the root, a leading dot, or nothing. -/
inductive Anchor where
  | root
  | dot
  | none
deriving DecidableEq

def Anchor.bytes : Anchor → List UInt8
  | root => [slash]
  | dot => [Path.dot]
  | none => []

/-- Splits the anchor off. -/
def split : List UInt8 → Anchor × List UInt8
  | [] => (.none, [])
  | first :: body =>
    if first = slash then (.root, body)
    else if first = dot && (body = [] || body.head? = some slash) then (.dot, body)
    else (.none, first :: body)

/-- Whether a part does not count. -/
def isIdle (part : List UInt8) : Bool :=
  part = [] || part = [dot]

/-- The parts of what follows the anchor, without idle ones at the end. -/
def trimParts (parts : List (List UInt8)) : List (List UInt8) :=
  (parts.reverse.dropWhile isIdle).reverse

def parts (body : List UInt8) : List (List UInt8) :=
  trimParts (Text.pieces slash body)

/-- A meaningful part of a path. -/
inductive Component where
  | root
  | current
  | up
  | name (text : List UInt8)
deriving DecidableEq

/-- The meaningful parts of a path.  Two texts with the same components are the same path. -/
def components (path : Path) : List Component :=
  let (anchor, body) := split path.bytes
  let start :=
    match anchor with
    | .root => [Component.root]
    | .dot => [Component.current]
    | .none => []
  start ++ ((parts body).filter (!isIdle ·)).map fun part =>
    if part = [dot, dot] then .up else .name part

def isAbsolute (path : Path) : Bool :=
  path.bytes.head? == some slash

/-- Puts a path behind another one, unless it is absolute. -/
def join (base path : Path) : Path :=
  if path.isAbsolute then path
  else
    match base.bytes.getLast? with
    | none => path
    | some last =>
      if last = slash then ⟨base.bytes ++ path.bytes⟩ else ⟨base.bytes ++ slash :: path.bytes⟩

/-- The last part, if it is a name. -/
def fileName? (path : Path) : Option (List UInt8) :=
  match (parts (split path.bytes).2).getLast? with
  | none => none
  | some part => if part = [dot, dot] then none else some part

/-- Splits a name at its last dot.  A name whose only dot is its first character is not split. -/
def splitName (name : List UInt8) : List UInt8 × Option (List UInt8) :=
  match Text.splitOnce dot name.reverse with
  | none => (name, none)
  | some (_, []) => (name, none)
  | some (extension, stem) => (stem.reverse, some extension.reverse)

/-- The name without its extension. -/
def fileStem? (path : Path) : Option (List UInt8) :=
  path.fileName?.map fun name => (splitName name).1

def extension? (path : Path) : Option (List UInt8) :=
  path.fileName?.bind fun name => (splitName name).2

/-- The path without its last part; the root and the empty path have no parent. -/
def parent? (path : Path) : Option Path :=
  let (anchor, body) := split path.bytes
  match parts body with
  | [] => if anchor = .dot then some ⟨[]⟩ else none
  | part :: rest =>
    some ⟨anchor.bytes ++ Text.join slash (trimParts (part :: rest).dropLast)⟩

/-- Replaces the name at the end of a path, or adds one if there is none. -/
def withFileName (path : Path) (name : List UInt8) : Path :=
  let base := if path.fileName?.isSome then path.parent?.getD path else path
  base.join ⟨name⟩

/-! ### Parents are shorter -/

/-- What the anchor of a path can be. -/
theorem split_cases (bytes : List UInt8) :
    (∃ body, bytes = slash :: body ∧ split bytes = (.root, body)) ∨
      (∃ body, bytes = dot :: body ∧ (body = [] ∨ body.head? = some slash) ∧
        split bytes = (.dot, body)) ∨
      bytes.head? ≠ some slash ∧ split bytes = (.none, bytes) := by
  cases bytes with
  | nil => exact .inr (.inr ⟨by simp, rfl⟩)
  | cons first body =>
    by_cases hslash : first = slash
    · exact .inl ⟨body, by rw [hslash], by simp [split, hslash]⟩
    · by_cases hdot : first = dot ∧ (body = [] ∨ body.head? = some slash)
      · exact .inr (.inl ⟨body, by rw [hdot.1], hdot.2, by simp_all [split]⟩)
      · exact .inr (.inr ⟨by simp [hslash], by simp_all [split]⟩)

theorem bytes_append_split (bytes : List UInt8) :
    (split bytes).1.bytes ++ (split bytes).2 = bytes := by
  obtain ⟨body, rfl, hsplit⟩ | ⟨body, rfl, -, hsplit⟩ | ⟨-, hsplit⟩ := split_cases bytes
  · rw [hsplit]; rfl
  · rw [hsplit]; rfl
  · rw [hsplit]; rfl

theorem join_append {a b : List (List UInt8)} (ha : a ≠ []) (hb : b ≠ []) :
    Text.join slash (a ++ b) = Text.join slash a ++ slash :: Text.join slash b := by
  induction a with
  | nil => exact absurd rfl ha
  | cons part rest ih =>
    cases rest with
    | nil => cases b with
      | nil => exact absurd rfl hb
      | cons next others => simp [Text.join]
    | cons next others =>
      have := ih (by simp)
      simp only [List.cons_append] at this ⊢
      simp [Text.join, this]

theorem length_join_le (a b : List (List UInt8)) :
    (Text.join slash a).length ≤ (Text.join slash (a ++ b)).length := by
  by_cases ha : a = []
  · simp [ha, Text.join]
  · by_cases hb : b = []
    · simp [hb]
    · rw [join_append ha hb]; simp

theorem trimParts_append (parts : List (List UInt8)) :
    ∃ idle, parts = trimParts parts ++ idle := by
  refine ⟨(parts.reverse.takeWhile isIdle).reverse, ?_⟩
  rw [trimParts, ← List.reverse_append, List.takeWhile_append_dropWhile, List.reverse_reverse]

theorem length_join_trimParts_le (parts : List (List UInt8)) :
    (Text.join slash (trimParts parts)).length ≤ (Text.join slash parts).length := by
  obtain ⟨idle, h⟩ := trimParts_append parts
  calc
    (Text.join slash (trimParts parts)).length
      ≤ (Text.join slash (trimParts parts ++ idle)).length := length_join_le _ _
    _ = (Text.join slash parts).length := by rw [← h]

/-- A trimmed list of parts does not end in an idle one. -/
theorem getLast_trimParts_ne_nil {parts : List (List UInt8)} (h : trimParts parts ≠ []) :
    (trimParts parts).getLast h ≠ [] := by
  have hd : parts.reverse.dropWhile isIdle ≠ [] := by
    intro he; exact h (by simp [trimParts, he])
  have hhead := List.head_dropWhile_not isIdle hd
  intro hnil
  have : (trimParts parts).getLast h = (parts.reverse.dropWhile isIdle).head hd := by
    simp [trimParts, List.getLast_reverse]
  rw [this] at hnil
  rw [hnil] at hhead
  simp [isIdle] at hhead

theorem length_parent_lt {path above : Path} (h : path.parent? = some above) :
    above.bytes.length < path.bytes.length := by
  have hsplit := bytes_append_split path.bytes
  have hlen := congrArg List.length hsplit
  simp only [List.length_append] at hlen
  unfold parent? at h
  simp only at h
  split at h
  · next hparts =>
    split at h
    · next hdot =>
      injection h with h
      subst h
      rw [hdot] at hlen
      simp only [Anchor.bytes, List.length_cons, List.length_nil] at hlen
      simp
      omega
    · exact absurd h (by simp)
  · next part rest hparts =>
    injection h with h
    subst h
    simp only [List.length_append]
    have hne : parts (split path.bytes).2 ≠ [] := by rw [hparts]; simp
    have hlast := getLast_trimParts_ne_nil hne
    have hbody : (Text.join slash (parts (split path.bytes).2)).length ≤
        (split path.bytes).2.length := by
      have := length_join_trimParts_le (Text.pieces slash (split path.bytes).2)
      rw [Text.join_pieces] at this
      exact this
    have hinit := length_join_trimParts_le (part :: rest).dropLast
    have hdrop : (Text.join slash (part :: rest).dropLast).length <
        (Text.join slash (part :: rest)).length := by
      have hcat := List.dropLast_concat_getLast (l := part :: rest) (by simp)
      have hl : (part :: rest).getLast (by simp) ≠ [] := by
        intro he
        apply hlast
        have : ∀ (l : List (List UInt8)) (hl : l ≠ []), l = part :: rest → l.getLast hl = [] := by
          intro l hl e; subst e; exact he
        exact this _ hne hparts
      have hpos : 0 < ((part :: rest).getLast (by simp)).length := List.length_pos_iff.mpr hl
      by_cases hempty : (part :: rest).dropLast = []
      · rw [← hcat, hempty]
        simpa [Text.join] using hpos
      · rw [← hcat, List.dropLast_concat, join_append hempty (by simp)]
        simp
    rw [hparts] at hbody
    omega

/-- A path and its parents, the nearest first. -/
def ancestors (path : Path) : List Path :=
  match _h : path.parent? with
  | none => [path]
  | some above => path :: ancestors above
termination_by path.bytes.length
decreasing_by exact length_parent_lt _h

end Path

end DomTemplate

import Mathlib
import DomTemplate.Proofs.Files.Places
import DomTemplate.Proofs.Texts

/-!
# A name behind a path

The meaning of a path lies in its pieces: what they are apart from idle ones gives its components,
and following them gives its place.  A name put behind a path is one more piece, so it adds one
component and one step down.
-/

namespace DomTemplate

namespace Path

/-! ## Pieces and components -/

/-- The component of a piece that is not idle. -/
def component (piece : List UInt8) : Component :=
  if piece = [dot, dot] then .up else .name piece

/-- The component of an anchor. -/
def Anchor.components : Anchor → List Component
  | root => [.root]
  | dot => [.current]
  | none => []

theorem filter_trimParts (parts : List (List UInt8)) :
    (trimParts parts).filter (!isIdle ·) = parts.filter (!isIdle ·) := by
  have hparts : parts = trimParts parts ++ (parts.reverse.takeWhile isIdle).reverse := by
    rw [trimParts, ← List.reverse_append, List.takeWhile_append_dropWhile, List.reverse_reverse]
  have hidle : (parts.reverse.takeWhile isIdle).reverse.filter (!isIdle ·) = [] := by
    refine List.filter_eq_nil_iff.mpr fun part hpart => ?_
    simpa using List.mem_takeWhile_imp (List.mem_reverse.mp hpart)
  conv_rhs => rw [hparts, List.filter_append, hidle, List.append_nil]

/-- What the anchor takes from a path are idle pieces. -/
theorem filter_pieces_split (bytes : List UInt8) :
    (Text.pieces slash (split bytes).2).filter (!isIdle ·) =
      (Text.pieces slash bytes).filter (!isIdle ·) := by
  have hdot : dot ≠ slash := by decide
  obtain ⟨body, rfl, hsplit⟩ | ⟨body, rfl, hbody | hbody, hsplit⟩ | ⟨-, hsplit⟩ := split_cases bytes
  · rw [hsplit]
    simp [Text.pieces, isIdle]
  · rw [hsplit, hbody]
    simp [Text.pieces, isIdle, hdot]
  · obtain ⟨rest, rfl⟩ := List.head?_eq_some_iff.mp hbody
    rw [hsplit]
    simp [Text.pieces, isIdle, hdot]
  · rw [hsplit]

theorem components_eq (path : Path) :
    path.components = (split path.bytes).1.components ++
      ((Text.pieces slash path.bytes).filter (!isIdle ·)).map component := by
  rw [← filter_pieces_split, ← filter_trimParts]
  unfold components
  rcases split path.bytes with ⟨anchor, body⟩
  cases anchor <;> rfl

/-! ## Names -/

/-- Bytes that stand for an entry of a directory. -/
structure IsName (name : List UInt8) : Prop where
  noSlash : slash ∉ name
  notIdle : isIdle name = false
  notUp : name ≠ [dot, dot]

theorem IsName.split_eq {name : List UInt8} (h : IsName name) : (split name).1 = .none := by
  obtain ⟨body, rfl, -⟩ | ⟨body, rfl, rfl | hbody, -⟩ | ⟨-, hsplit⟩ := split_cases name
  · exact absurd List.mem_cons_self h.noSlash
  · exact absurd h.notIdle (by decide)
  · exact absurd (List.mem_cons_of_mem _ (List.mem_of_head? hbody)) h.noSlash
  · rw [hsplit]

theorem IsName.isAbsolute_eq {name : List UInt8} (h : IsName name) :
    isAbsolute ⟨name⟩ = false := by
  have hslash := h.noSlash
  unfold isAbsolute
  cases hname : name with
  | nil => rfl
  | cons c rest =>
      have hc : c ≠ slash := fun hc => hslash (hname ▸ hc ▸ List.mem_cons_self)
      simpa using hc

/-- What follows a slash has no influence on the anchor. -/
theorem split_append_slash {bytes : List UInt8} (h : bytes ≠ []) (more : List UInt8) :
    (split (bytes ++ slash :: more)).1 = (split bytes).1 := by
  rcases bytes with _ | ⟨first, body⟩
  · exact absurd rfl h
  · -- A dot is asked only for what comes right behind it.
    have hbehind : (body ++ slash :: more = [] ∨ (body ++ slash :: more).head? = some slash) ↔
        (body = [] ∨ body.head? = some slash) := by
      cases body <;> simp
    by_cases hslash : first = slash
    · simp [split, hslash]
    · simp only [List.cons_append, split, hslash, if_false, Bool.and_eq_true, Bool.or_eq_true,
        decide_eq_true_eq, hbehind]
      split <;> rfl

/-- A name is put behind an empty path as it is, and behind any other one after a slash. -/
theorem bytes_join (base : Path) {name : List UInt8} (h : IsName name) :
    (base.bytes = [] ∧ (base.join ⟨name⟩).bytes = name) ∨
      ∃ front, (base.bytes = front ++ [slash] ∨ base.bytes = front ∧ front ≠ []) ∧
        (base.join ⟨name⟩).bytes = front ++ slash :: name := by
  unfold join
  rw [h.isAbsolute_eq, if_neg Bool.false_ne_true]
  split
  · next hlast => exact .inl ⟨List.getLast?_eq_none_iff.mp hlast, rfl⟩
  · next last hlast =>
    obtain ⟨front, hfront⟩ := List.getLast?_eq_some_iff.mp hlast
    split
    · next hslash =>
      subst hslash
      exact .inr ⟨front, .inl hfront, by simp [hfront]⟩
    · exact .inr ⟨base.bytes, .inr ⟨rfl, by simp [hfront]⟩, rfl⟩

/-- The pieces of a path with a name behind it are those of the path, up to idle ones at the end, and
the name.  The two paths start in the same way. -/
theorem exists_pieces_join (base : Path) {name : List UInt8} (h : IsName name) :
    ∃ front idle, (∀ piece ∈ idle, isIdle piece = true) ∧
      Text.pieces slash base.bytes = front ++ idle ∧
      Text.pieces slash (base.join ⟨name⟩).bytes = front ++ [name] ∧
      (split (base.join ⟨name⟩).bytes).1 = (split base.bytes).1 ∧
      (base.join ⟨name⟩).isAbsolute = base.isAbsolute := by
  have hname := Text.pieces_of_not_mem h.noSlash
  rcases bytes_join base h with ⟨hbase, hjoin⟩ | ⟨front, hbase | ⟨hbase, hfront⟩, hjoin⟩
  · -- The empty path has one piece, which is idle: the name takes its place.
    refine ⟨[], [[]], by simp [isIdle], by rw [hbase]; rfl, by rw [hjoin, hname]; rfl, ?_, ?_⟩
    · rw [hjoin, hbase, h.split_eq]
      rfl
    · have habsolute := h.isAbsolute_eq
      unfold isAbsolute at habsolute ⊢
      rw [hjoin, hbase, habsolute]
      rfl
  · -- So does the empty piece behind a slash at the end.
    refine ⟨Text.pieces slash front, [[]], by simp [isIdle], ?_, ?_, ?_, ?_⟩
    · rw [hbase, Text.pieces_append_separator]
      rfl
    · rw [hjoin, Text.pieces_append_separator, hname]
    · rw [hjoin, hbase]
      by_cases hfront : front = []
      · rw [hfront]
        rfl
      · rw [split_append_slash hfront, split_append_slash hfront]
    · simp [isAbsolute, hjoin, hbase, List.head?_append]
  · refine ⟨Text.pieces slash front, [], by simp, by rw [hbase, List.append_nil], ?_, ?_, ?_⟩
    · rw [hjoin, Text.pieces_append_separator, hname]
    · rw [hjoin, hbase, split_append_slash hfront]
    · rw [isAbsolute, isAbsolute, hjoin, hbase, List.head?_append_of_ne_nil _ hfront]

theorem components_join (base : Path) {name : List UInt8} (h : IsName name) :
    (base.join ⟨name⟩).components = base.components ++ [.name name] := by
  obtain ⟨front, idle, hidle, hbase, hjoin, hanchor, -⟩ := exists_pieces_join base h
  have hnone : idle.filter (!isIdle ·) = [] :=
    List.filter_eq_nil_iff.mpr fun piece hpiece => by simp [hidle piece hpiece]
  rw [components_eq, components_eq, hbase, hjoin, hanchor, List.filter_append, List.filter_append,
    hnone, List.append_nil, List.map_append, List.append_assoc]
  simp [h.notIdle, component, h.notUp]

end Path

theorem Disk.placeOf_join (disk : Disk) (base : Path) {name : List UInt8}
    (h : Path.IsName name) :
    disk.placeOf (base.join ⟨name⟩) = (disk.placeOf base).push name := by
  obtain ⟨front, idle, hidle, hbase, hjoin, -, habsolute⟩ := Path.exists_pieces_join base h
  rw [Disk.placeOf, Disk.placeOf, Disk.start, Disk.start, hbase, hjoin, habsolute,
    List.foldl_append, List.foldl_append, Disk.foldl_follow_idle hidle]
  simp [Disk.follow, h.notIdle, h.notUp]

end DomTemplate

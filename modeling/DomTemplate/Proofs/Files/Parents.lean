import Mathlib
import DomTemplate.Proofs.Files.Names

/-!
# Parents of a path

The parent of a path has its components without the last one, so going up from a path leads through
the beginnings of the path, and comes to an end.
-/

namespace DomTemplate

namespace Path

/-! ## The components of a parent -/

/-- Cutting the parts of a path short leaves its anchor in place. -/
theorem split_bytes_append_join {text : List UInt8} {front back : List (List UInt8)}
    (hpieces : Text.pieces slash (split text).2 = front ++ back) (hback : back ≠ []) :
    split ((split text).1.bytes ++ Text.join slash front) =
      ((split text).1, Text.join slash front) := by
  have hanchor : (split ((split text).1.bytes ++ Text.join slash front)).1 = (split text).1 := by
    by_cases hfront : front = []
    · rw [hfront]
      cases (split text).1 <;> rfl
    · have htext : text = (split text).1.bytes ++ Text.join slash front ++
          slash :: Text.join slash back := by
        conv_lhs => rw [← bytes_append_split text, ← Text.join_pieces slash (split text).2, hpieces,
          join_append hfront hback]
        rw [List.append_assoc]
      by_cases hempty : (split text).1.bytes ++ Text.join slash front = []
      · -- Nothing stands before the cut, so the path does not even have an anchor.
        rw [hempty]
        obtain ⟨hbytes, -⟩ := List.append_eq_nil_iff.mp hempty
        cases hsplit : (split text).1 with
        | root => simp [hsplit, Anchor.bytes] at hbytes
        | dot => simp [hsplit, Anchor.bytes] at hbytes
        | none => rfl
      · conv_rhs => rw [htext, split_append_slash hempty]
  have hbody := bytes_append_split ((split text).1.bytes ++ Text.join slash front)
  rw [hanchor] at hbody
  exact Prod.ext hanchor (List.append_cancel_left hbody)

theorem components_eq_parts (path : Path) :
    path.components = (split path.bytes).1.components ++
      ((parts (split path.bytes).2).filter (!isIdle ·)).map component := by
  unfold components
  rcases split path.bytes with ⟨anchor, body⟩
  cases anchor <;> rfl

/-- Trimmed parts do not end in an idle one. -/
theorem isIdle_of_trimParts_eq {all init : List (List UInt8)} {last : List UInt8}
    (h : trimParts all = init ++ [last]) : isIdle last = false := by
  have hback : all.reverse.dropWhile isIdle = last :: init.reverse := by
    rw [← List.reverse_reverse (all.reverse.dropWhile isIdle), ← trimParts, h, List.reverse_append]
    rfl
  have hhead := List.head?_dropWhile_not isIdle all.reverse
  rw [hback] at hhead
  simpa using hhead

/-- A path that has parts ends in the component of the last one. -/
theorem components_of_parts_eq {path : Path} {init : List (List UInt8)} {last : List UInt8}
    (h : parts (split path.bytes).2 = init ++ [last]) :
    path.components = (split path.bytes).1.components ++
      (init.filter (!isIdle ·)).map component ++ [component last] := by
  rw [components_eq_parts, h, List.filter_append]
  simp [isIdle_of_trimParts_eq h]

theorem filter_pieces_join {parts : List (List UInt8)} (hparts : ∀ part ∈ parts, slash ∉ part) :
    (Text.pieces slash (Text.join slash parts)).filter (!isIdle ·) = parts.filter (!isIdle ·) := by
  by_cases hne : parts = []
  · rw [hne]
    rfl
  · rw [Text.pieces_join hne hparts]

/-- A path is its parent with one more component. -/
theorem components_of_parent {path above : Path} (h : path.parent? = some above) :
    ∃ last, path.components = above.components ++ [last] := by
  unfold parent? at h
  simp only at h
  split at h
  · next hparts =>
    -- All that such a path has is the dot at its start.
    split_ifs at h with hdot
    obtain rfl := Option.some.inj h
    exact ⟨.current, by rw [components_eq_parts, hparts, hdot]; rfl⟩
  · next part rest hparts =>
    obtain rfl := Option.some.inj h
    obtain ⟨init, last, hlast⟩ : ∃ init last, part :: rest = init ++ [last] :=
      ⟨_, _, (List.dropLast_concat_getLast (List.cons_ne_nil part rest)).symm⟩
    rw [hlast] at hparts
    rw [hlast, List.dropLast_concat]
    obtain ⟨idle, hidle⟩ := trimParts_append (Text.pieces slash (split path.bytes).2)
    obtain ⟨between, hbetween⟩ := trimParts_append init
    have hpieces : Text.pieces slash (split path.bytes).2 =
        trimParts init ++ (between ++ [last] ++ idle) := by
      rw [hidle, ← parts, hparts]
      nth_rewrite 1 [hbetween]
      simp only [List.append_assoc]
    have hslash : ∀ piece ∈ trimParts init, slash ∉ piece := fun piece hpiece =>
      Text.not_mem_of_mem_pieces (hpieces ▸ List.mem_append_left _ hpiece)
    have hsplit := split_bytes_append_join hpieces (by simp)
    refine ⟨component last, ?_⟩
    rw [components_of_parts_eq hparts, components_eq, ← filter_pieces_split,
      hsplit, filter_pieces_join hslash, filter_trimParts]

theorem root_mem_components_split (bytes : List UInt8) :
    .root ∈ (split bytes).1.components ↔ bytes.head? = some slash := by
  have hdot : dot ≠ slash := by decide
  obtain ⟨body, rfl, hsplit⟩ | ⟨body, rfl, -, hsplit⟩ | ⟨hhead, hsplit⟩ := split_cases bytes
  · simp [hsplit, Anchor.components]
  · simp [hsplit, Anchor.components, hdot]
  · simp [hsplit, Anchor.components, hhead]

theorem isAbsolute_iff (path : Path) : path.isAbsolute = true ↔ .root ∈ path.components := by
  have hbody : .root ∉ ((parts (split path.bytes).2).filter (!isIdle ·)).map component := by
    intro hroot
    obtain ⟨part, -, hpart⟩ := List.mem_map.mp hroot
    unfold component at hpart
    split_ifs at hpart
  rw [components_eq_parts, List.mem_append, or_iff_left hbody, root_mem_components_split,
    isAbsolute, beq_iff_eq]

/-! ## Going up -/

/-- What is a number of steps above a path. -/
def above? (path : Path) : Nat → Option Path
  | 0 => some path
  | steps + 1 => (path.above? steps).bind parent?

theorem above?_succ (path : Path) (steps : Nat) :
    path.above? (steps + 1) = path.parent?.bind (above? · steps) := by
  induction steps with
  | zero => simp [above?]
  | succ steps ih =>
      rw [above?, ih, Option.bind_assoc]
      rfl

theorem getElem?_ancestors (path : Path) (steps : Nat) :
    path.ancestors[steps]? = path.above? steps := by
  induction steps generalizing path with
  | zero =>
      rw [ancestors]
      split <;> rfl
  | succ steps ih =>
      rw [above?_succ, ancestors]
      split
      · next hnone => simp [hnone]
      · next above habove => simp [habove, ih]

/-- Each step up is shorter. -/
theorem length_above {path above : Path} {steps : Nat} (h : path.above? steps = some above) :
    above.bytes.length + steps ≤ path.bytes.length := by
  induction steps generalizing above with
  | zero =>
      obtain rfl := Option.some.inj h
      exact le_rfl
  | succ steps ih =>
      obtain ⟨below, hbelow, habove⟩ := Option.bind_eq_some_iff.mp h
      have hlt := length_parent_lt habove
      have hle := ih hbelow
      omega

/-- Going up leads through the beginnings of a path. -/
theorem components_above_prefix {path above : Path} {steps : Nat}
    (h : path.above? steps = some above) : above.components <+: path.components := by
  induction steps generalizing above with
  | zero =>
      obtain rfl := Option.some.inj h
      exact List.prefix_rfl
  | succ steps ih =>
      obtain ⟨below, hbelow, habove⟩ := Option.bind_eq_some_iff.mp h
      obtain ⟨last, hlast⟩ := components_of_parent habove
      exact (hlast ▸ List.prefix_append _ _).trans (ih hbelow)

/-- Going up ends at a path without a parent. -/
theorem exists_topmost (path : Path) :
    ∃ steps top, path.above? steps = some top ∧ top.parent? = none := by
  cases hparent : path.parent? with
  | none => exact ⟨0, path, rfl, hparent⟩
  | some above =>
      obtain ⟨steps, top, hsteps, htop⟩ := exists_topmost above
      exact ⟨steps + 1, top, by rw [above?_succ, hparent]; exact hsteps, htop⟩
termination_by path.bytes.length
decreasing_by exact length_parent_lt hparent

end Path

end DomTemplate

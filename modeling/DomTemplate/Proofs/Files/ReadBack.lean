import Mathlib
import DomTemplate.Proofs.Files.Places

/-!
# Reading back what was written

Writing a file takes nothing away: what could be found on the disk can be found there afterwards.
So the file itself can be read back, and any other file reads as before.
-/

namespace DomTemplate.Disk

/-! ## Disks that keep what they have -/

/-- Whatever the first disk has is still on the second one, and its directories are directories
still. -/
structure Keeps (disk after : Disk) : Prop where
  present : ∀ place, (disk.at? place).isSome = true → (after.at? place).isSome = true
  directory : ∀ place, disk.isDirectoryAt place = true → after.isDirectoryAt place = true
  workingDirectory : after.workingDirectory = disk.workingDirectory

theorem isDirectoryAt_of_step {disk : Disk} {place next : Location} {part : List UInt8}
    (h : disk.step place part = .ok next) : disk.isDirectoryAt place = true := by
  by_contra hplace
  rw [step, if_pos (by simpa using hplace)] at h
  exact absurd h (by simp)

theorem Keeps.step {disk after : Disk} (hkeeps : Keeps disk after) {place next : Location}
    {part : List UInt8} (h : disk.step place part = .ok next) :
    after.step place part = .ok next := by
  have hplace := isDirectoryAt_of_step h
  unfold Disk.step at h ⊢
  simp only [hplace, hkeeps.directory place hplace, Bool.not_true, Bool.false_eq_true,
    if_false] at h ⊢
  split_ifs at h ⊢
  · exact h
  · exact h
  · obtain ⟨found, hfound, h⟩ := bind_eq_ok_iff.mp h
    rw [hfound, ok_bind]
    split at h
    · next hpresent => rw [if_pos (hkeeps.present found hpresent), h]
    · exact absurd h (by simp)

theorem Keeps.foldlM_step {disk after : Disk} (hkeeps : Keeps disk after)
    {pieces : List (List UInt8)} {first last : Location}
    (h : pieces.foldlM disk.step first = .ok last) : pieces.foldlM after.step first = .ok last := by
  induction pieces generalizing first with
  | nil => exact h
  | cons piece pieces ih =>
      obtain ⟨next, hnext, hrest⟩ := bind_eq_ok_iff.mp h
      rw [List.foldlM_cons, hkeeps.step hnext]
      exact ih hrest

theorem Keeps.resolve {disk after : Disk} (hkeeps : Keeps disk after) {path : Path}
    {place : Location} (h : disk.resolve path = .ok place) : after.resolve path = .ok place := by
  obtain ⟨pieces, hpieces, h⟩ := bind_eq_ok_iff.mp h
  rw [Disk.resolve, hpieces, ok_bind, start, hkeeps.workingDirectory]
  exact hkeeps.foldlM_step h

theorem resolve_eq_placeOf {disk : Disk} {path : Path} {place : Location}
    (h : disk.resolve path = .ok place) : place = disk.placeOf path := by
  obtain ⟨pieces, hpieces, h⟩ := bind_eq_ok_iff.mp h
  rw [parts_eq hpieces] at h
  exact foldlM_eq_foldl (fun _ _ _ => step_eq_follow) h

/-! ## Writing a file -/

/-- A path that ends in a name without a slash is a path to a directory and the name. -/
theorem exists_front_of_spot {disk : Disk} {path : Path} {directory : Location} {name : List UInt8}
    (h : disk.spot path = .ok (.named directory name false)) :
    ∃ front, parts path = .ok (front ++ [name]) ∧
      front.foldlM disk.step (disk.start path) = .ok directory ∧
      disk.isDirectoryAt directory = true ∧ Path.isIdle name = false ∧
      name ≠ [Path.dot, Path.dot] := by
  obtain ⟨pieces, hpieces, h⟩ := bind_eq_ok_iff.mp h
  rw [hpieces]
  split at h
  · exact absurd h (by simp)
  · next last above hlast =>
    obtain ⟨place, hplace, h⟩ := bind_eq_ok_iff.mp h
    split_ifs at h with hdirectory hdots
    · exact absurd h (by simp)
    · injection h with h
      injection h with hplaces hnames hslashed
      subst hplaces hnames
      -- Since the last piece is not empty, it is the name.
      have hback : last :: above = pieces.reverse := by
        rw [← hlast]
        cases hpieces : pieces.reverse with
        | nil => rfl
        | cons piece back =>
            have hpiece : piece ≠ [] := by
              rintro rfl
              simp [← List.head?_reverse, hpieces] at hslashed
            exact List.dropWhile_cons_of_neg (by simpa using hpiece)
      have hname : last ≠ [] := by
        have := List.head?_dropWhile_not (fun part => decide (part = [])) pieces.reverse
        rw [hlast] at this
        simpa using this
      have hdot : last ≠ [Path.dot] ∧ last ≠ [Path.dot, Path.dot] := by simpa using hdots
      refine ⟨above.reverse, ?_, hplace, by simpa using hdirectory, ?_, hdot.2⟩
      · rw [← List.reverse_cons, hback, List.reverse_reverse]
      · simp [Path.isIdle, hname, hdot.1]

/-- A file is written at the place of its path, which has to be a name in a directory and no
directory itself. -/
theorem exists_spot_of_writeText {disk after : Disk} {path : Path} {text : String}
    (h : disk.writeText path text = .ok after) :
    ∃ directory name, disk.spot path = .ok (.named directory name false) ∧
      placeIn directory name = .ok (disk.placeOf path) ∧
      disk.isDirectoryAt (disk.placeOf path) = false := by
  obtain ⟨spot, hspot, h⟩ := bind_eq_ok_iff.mp h
  cases spot with
  | fixed => exact absurd h (by simp)
  | named directory name slashed =>
      simp only at h
      split at h
      · exact absurd h (by simp)
      · next hslashed =>
        obtain ⟨place, hfound, h⟩ := bind_eq_ok_iff.mp h
        have hplace : place = disk.placeOf path := by
          rw [placeOf_of_spot hspot, placeIn_eq hfound]
        rw [Bool.not_eq_true] at hslashed
        subst hslashed hplace
        refine ⟨directory, name, hspot, hfound, ?_⟩
        split at h
        · exact absurd h (by simp)
        · next hdirectory => simpa using hdirectory

theorem keeps_writeText {disk after : Disk} {path : Path} {text : String}
    (h : disk.writeText path text = .ok after) : Keeps disk after := by
  obtain ⟨-, -, -, -, hdirectory⟩ := exists_spot_of_writeText h
  obtain ⟨hplace, rfl⟩ := writeText_eq h
  refine ⟨fun place hpresent => ?_, fun place hplace' => ?_, rfl⟩
  · rw [at?_put hplace]
    split
    · rfl
    · exact hpresent
  · have hother : place ≠ disk.placeOf path := by
      rintro rfl
      rw [hdirectory] at hplace'
      exact absurd hplace' (by simp)
    rw [isDirectoryAt, at?_put hplace, if_neg hother]
    exact hplace'

/-- What was written is found under its path. -/
theorem resolve_of_writeText {disk after : Disk} {path : Path} {text : String}
    (h : disk.writeText path text = .ok after) :
    after.resolve path = .ok (disk.placeOf path) := by
  have hkeeps := keeps_writeText h
  obtain ⟨directory, name, hspot, hplaceIn, -⟩ := exists_spot_of_writeText h
  obtain ⟨front, hparts, hfront, hdirectory, hidle, hup⟩ := exists_front_of_spot hspot
  obtain ⟨hplace, rfl⟩ := writeText_eq h
  have hlast : (disk.put (disk.placeOf path) (.file text.toUTF8)).step directory name =
      .ok (disk.placeOf path) := by
    have hpresent : ((disk.put (disk.placeOf path) (.file text.toUTF8)).at?
        (disk.placeOf path)).isSome = true := by
      rw [at?_put hplace, if_pos rfl]
      rfl
    rw [step, hkeeps.directory directory hdirectory, hidle, if_neg (by simp), if_neg (by simp),
      if_neg hup, hplaceIn, ok_bind, if_pos hpresent]
  rw [resolve, hparts, ok_bind, start, hkeeps.workingDirectory]
  refine foldlM_append_of_ok (hkeeps.foldlM_step hfront) ?_
  rw [List.foldlM_cons, hlast]
  rfl

theorem readText_of_file {disk : Disk} {path : Path} {place : Location} {text : String}
    (hplace : disk.resolve path = .ok place) (hfile : disk.at? place = some (.file text.toUTF8)) :
    disk.readText path = .ok text := by
  have htext : String.fromUTF8? text.toUTF8 = some text := dif_pos text.isValidUTF8
  rw [readText, hplace, ok_bind, hfile]
  simp only [htext]

theorem readText_of_writeText {disk after : Disk} {path : Path} {text : String}
    (h : disk.writeText path text = .ok after) : after.readText path = .ok text := by
  refine readText_of_file (resolve_of_writeText h) ?_
  obtain ⟨hplace, rfl⟩ := writeText_eq h
  rw [at?_put hplace, if_pos rfl]

/-- A file reads as before after another one has been written. -/
theorem readText_of_writeText_other {disk after : Disk} {path other : Path} {text written : String}
    (hread : disk.readText path = .ok text) (h : disk.writeText other written = .ok after)
    (hother : disk.placeOf path ≠ disk.placeOf other) : after.readText path = .ok text := by
  obtain ⟨place, hplace, hread⟩ := bind_eq_ok_iff.mp hread
  rw [readText, (keeps_writeText h).resolve hplace, ok_bind]
  obtain ⟨hwritten, rfl⟩ := writeText_eq h
  rw [at?_put hwritten, if_neg (resolve_eq_placeOf hplace ▸ hother)]
  exact hread

end DomTemplate.Disk

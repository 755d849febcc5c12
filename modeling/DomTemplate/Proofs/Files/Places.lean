import Mathlib
import DomTemplate.Files.Disk
import DomTemplate.Proofs.Outcome

/-!
# What operations do to a disk, place by place

Nothing on a disk redirects a path, so a path names the same place whatever is on the disk.  Writing
a file changes this place and no other.  Making directories never touches what is there already.
-/

namespace DomTemplate.Disk

/-! ## The place of a path -/

/-- Follows one part of a path, whatever is there. -/
def follow (place : Location) (part : List UInt8) : Location :=
  if Path.isIdle part then place
  else if part = [Path.dot, Path.dot] then place.pop
  else place.push part

/-- The place that a path names, whether or not something is there. -/
def placeOf (disk : Disk) (path : Path) : Location :=
  (Text.pieces Path.slash path.bytes).foldl follow (disk.start path)

theorem placeIn_eq {directory place : Location} {name : List UInt8}
    (h : placeIn directory name = .ok place) : place = directory.push name := by
  unfold placeIn at h
  split at h
  · exact absurd h (by simp)
  · exact (Except.ok.inj h).symm

theorem step_eq_follow {disk : Disk} {place next : Location} {part : List UInt8}
    (h : disk.step place part = .ok next) : next = follow place part := by
  unfold step at h
  unfold follow
  split_ifs at h ⊢ with hdirectory hidle hup
  · exact (Except.ok.inj h).symm
  · exact (Except.ok.inj h).symm
  · obtain ⟨found, hfound, h⟩ := bind_eq_ok_iff.mp h
    split at h
    · rw [← Except.ok.inj h, placeIn_eq hfound]
    · exact absurd h (by simp)

theorem parts_eq {path : Path} {found : List (List UInt8)} (h : parts path = .ok found) :
    found = Text.pieces Path.slash path.bytes := by
  unfold parts at h
  split_ifs at h
  exact (Except.ok.inj h).symm

theorem foldl_follow_idle {parts : List (List UInt8)} (h : ∀ part ∈ parts, Path.isIdle part = true)
    (place : Location) : parts.foldl follow place = place := by
  induction parts with
  | nil => rfl
  | cons part parts ih =>
      obtain ⟨hpart, hparts⟩ := List.forall_mem_cons.mp h
      rw [List.foldl_cons, follow, if_pos hpart, ih hparts]

/-- The name that a path ends with stands at the place of the path, slash or no slash. -/
theorem placeOf_of_spot {disk : Disk} {path : Path} {directory : Location} {name : List UInt8}
    {slashed : Bool} (h : disk.spot path = .ok (.named directory name slashed)) :
    disk.placeOf path = directory.push name := by
  obtain ⟨found, hfound, h⟩ := bind_eq_ok_iff.mp h
  obtain rfl := parts_eq hfound
  rw [placeOf]
  generalize Text.pieces Path.slash path.bytes = pieces at h ⊢
  split at h
  · exact absurd h (by simp)
  · next last above hlast =>
    obtain ⟨place, hplace, h⟩ := bind_eq_ok_iff.mp h
    -- The parts are those above, the name, and nothing but empty ones behind it.
    have hpieces : pieces = above.reverse ++ [last] ++
        (pieces.reverse.takeWhile (· = [])).reverse := by
      have := List.takeWhile_append_dropWhile (p := fun part => decide (part = []))
        (l := pieces.reverse)
      rw [hlast] at this
      rw [← List.reverse_cons, ← List.reverse_append, this, List.reverse_reverse]
    have hempty : ∀ part ∈ (pieces.reverse.takeWhile (· = [])).reverse,
        Path.isIdle part = true := by
      intro part hpart
      have hnil : part = [] := by simpa using List.mem_takeWhile_imp (List.mem_reverse.mp hpart)
      rw [hnil]
      rfl
    have hname : last ≠ [] := by
      have := List.head?_dropWhile_not (fun part => decide (part = [])) pieces.reverse
      rw [hlast] at this
      simpa using this
    have hdirectory := foldlM_eq_foldl (fun _ _ _ => step_eq_follow) hplace
    split_ifs at h with _ hdots
    · exact absurd h (by simp)
    · injection h with h
      injection h with hplaces hnames
      subst hplaces hnames
      have hdot : last ≠ [Path.dot] ∧ last ≠ [Path.dot, Path.dot] := by simpa using hdots
      rw [hpieces, List.foldl_append, List.foldl_append, foldl_follow_idle hempty, ← hdirectory]
      simp [follow, Path.isIdle, hname, hdot]

/-! ## Putting an entry -/

theorem lookup_filter_ne {entries : List (Location × Entry)} {place other : Location}
    (h : other ≠ place) :
    (entries.filter (·.1 != place)).lookup other = entries.lookup other := by
  induction entries with
  | nil => rfl
  | cons entry entries ih =>
      obtain ⟨key, content⟩ := entry
      by_cases hkey : key = place
      · subst hkey
        have hne : (other == key) = false := by simpa using h
        simp [List.lookup_cons, hne, ih]
      · simp [hkey, List.lookup_cons, ih]

theorem at?_put {place : Location} (hplace : place ≠ #[]) (disk : Disk) (entry : Entry)
    (other : Location) :
    (disk.put place entry).at? other = if other = place then some entry else disk.at? other := by
  unfold at? put
  by_cases hsame : other = place
  · subst hsame
    simp [hplace]
  · have hne : (other == place) = false := by simpa using hsame
    simp [hsame, List.lookup_cons, hne, lookup_filter_ne hsame]

/-! ## Writing a file -/

/-- A file that is written stands at the place of its path.  Nothing else changes. -/
theorem writeText_eq {disk after : Disk} {path : Path} {text : String}
    (h : disk.writeText path text = .ok after) :
    disk.placeOf path ≠ #[] ∧ after = disk.put (disk.placeOf path) (.file text.toUTF8) := by
  obtain ⟨spot, hspot, h⟩ := bind_eq_ok_iff.mp h
  cases spot with
  | fixed => exact absurd h (by simp)
  | named directory name slashed =>
      have hplace := placeOf_of_spot hspot
      simp only at h
      split at h
      · exact absurd h (by simp)
      · obtain ⟨place, hfound, h⟩ := bind_eq_ok_iff.mp h
        rw [placeIn_eq hfound, ← hplace] at h
        split at h
        · exact absurd h (by simp)
        · refine ⟨?_, (Except.ok.inj h).symm⟩
          rw [hplace]
          simp

/-! ## Making directories -/

/-- The second disk has new directories, and apart from them it is the first. -/
structure GainsDirectories (disk after : Disk) : Prop where
  at? : ∀ place, after.at? place = disk.at? place ∨
    disk.at? place = none ∧ after.at? place = some .directory
  workingDirectory : after.workingDirectory = disk.workingDirectory

theorem GainsDirectories.refl (disk : Disk) : GainsDirectories disk disk :=
  ⟨fun _ => .inl rfl, rfl⟩

theorem GainsDirectories.trans {disk middle after : Disk} (hmiddle : GainsDirectories disk middle)
    (hafter : GainsDirectories middle after) : GainsDirectories disk after := by
  refine ⟨fun place => ?_, hafter.workingDirectory.trans hmiddle.workingDirectory⟩
  rcases hafter.at? place with hsame | ⟨hnone, hdirectory⟩
  · rw [hsame]
    exact hmiddle.at? place
  · rcases hmiddle.at? place with hbefore | ⟨hbefore, hmade⟩
    · exact .inr ⟨hbefore ▸ hnone, hdirectory⟩
    · rw [hmade] at hnone
      exact absurd hnone (by simp)

theorem gainsDirectories_createDirectory {disk after : Disk} {path : Path}
    (h : disk.createDirectory path = .ok after) : GainsDirectories disk after := by
  obtain ⟨spot, hspot, h⟩ := bind_eq_ok_iff.mp h
  cases spot with
  | fixed => exact absurd h (by simp)
  | named directory name slashed =>
      obtain ⟨place, hfound, h⟩ := bind_eq_ok_iff.mp h
      have hplace : place ≠ #[] := by
        rw [placeIn_eq hfound]
        simp
      split at h
      · exact absurd h (by simp)
      · next hnone =>
        obtain rfl := Except.ok.inj h
        refine ⟨fun other => ?_, rfl⟩
        rw [at?_put hplace]
        split
        · next hother =>
          rw [hother]
          exact .inr ⟨by simpa using hnone, rfl⟩
        · exact .inl rfl

theorem gainsDirectories_createFrom (disk : Disk) (paths : List Path) :
    GainsDirectories disk (disk.createFrom paths).2 := by
  induction paths with
  | nil => exact .refl disk
  | cons path above ih =>
      rw [createFrom]
      split
      · exact .refl disk
      · split
        · next hmade => exact gainsDirectories_createDirectory hmade
        · split
          · next habove =>
            rw [habove] at ih
            exact ih
          · next habove =>
            rw [habove] at ih
            split
            · next hmade => exact ih.trans (gainsDirectories_createDirectory hmade)
            · exact ih
        · exact .refl disk

theorem gainsDirectories_createDirectories (disk : Disk) (path : Path) :
    GainsDirectories disk (disk.createDirectories path).2 :=
  gainsDirectories_createFrom disk path.ancestors

end DomTemplate.Disk

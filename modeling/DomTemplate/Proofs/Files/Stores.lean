import Mathlib
import DomTemplate.Command.Build
import DomTemplate.Proofs.Files.Places

/-!
# Storing files one after the other

To store a file is to make its directory and to write it.  What several files stored in order leave
on a disk is told place by place: a place is as before, or a new directory, or it holds one of the
files, the last one if several have been stored there.
-/

namespace DomTemplate

/-- A file to be stored. -/
structure Output where
  target : Path
  text : String

namespace Disk

/-! ## Storing -/

/-- The directory of a file is there for it to be written. -/
inductive Prepares (disk : Disk) (target : Path) : Disk → Prop where
  | unneeded (h : neededDirectory target = none) : Prepares disk target disk
  | made {directory : Path} {after : Disk} (h : neededDirectory target = some directory)
      (hmade : disk.createDirectories directory = (.ok (), after)) : Prepares disk target after

/-- A file is stored. -/
inductive Stores (disk : Disk) (output : Output) : Disk → Prop where
  | intro {middle after : Disk} (hdirectory : disk.Prepares output.target middle)
      (hfile : middle.writeText output.target output.text = .ok after) : Stores disk output after

/-- A file is not stored, since its directory cannot be made or it cannot be written itself. -/
inductive FailsToStore (disk : Disk) (output : Output) : Disk → Prop where
  | directory {directory : Path} {fault : FileFault} {after : Disk}
      (h : neededDirectory output.target = some directory)
      (hfault : disk.createDirectories directory = (.error fault, after)) :
      FailsToStore disk output after
  | file {fault : FileFault} {after : Disk} (hdirectory : disk.Prepares output.target after)
      (hfault : after.writeText output.target output.text = .error fault) :
      FailsToStore disk output after

/-- Files are stored in order. -/
inductive StoresAll : Disk → List Output → Disk → Prop where
  | nil (disk : Disk) : StoresAll disk [] disk
  | cons {disk middle after : Disk} {output : Output} {outputs : List Output}
      (hfirst : disk.Stores output middle) (hrest : StoresAll middle outputs after) :
      StoresAll disk (output :: outputs) after

theorem StoresAll.exists_of_append {disk after : Disk} {first second : List Output}
    (h : StoresAll disk (first ++ second) after) :
    ∃ middle, StoresAll disk first middle ∧ StoresAll middle second after := by
  induction first generalizing disk with
  | nil => exact ⟨disk, .nil disk, h⟩
  | cons output first ih =>
      cases h with
      | cons hstored hrest =>
          obtain ⟨middle, hmiddle, hsecond⟩ := ih hrest
          exact ⟨middle, .cons hstored hmiddle, hsecond⟩

/-- Of the planned files, those in front are stored: all of them, or those before one that cannot be
stored. -/
inductive StoresPart (disk : Disk) (planned : List Output) : List Output → Disk → Prop where
  | all {after : Disk} (h : StoresAll disk planned after) : StoresPart disk planned planned after
  | stopped {stored later : List Output} {failed : Output} {middle after : Disk}
      (hplanned : planned = stored ++ failed :: later) (hstored : StoresAll disk stored middle)
      (hfailed : middle.FailsToStore failed after) : StoresPart disk planned stored after

theorem StoresPart.cons {disk middle after : Disk} {output : Output} {planned stored : List Output}
    (hfirst : disk.Stores output middle) (hrest : middle.StoresPart planned stored after) :
    disk.StoresPart (output :: planned) (output :: stored) after := by
  cases hrest with
  | all h => exact .all (.cons hfirst h)
  | stopped hplanned hstored hfailed =>
      exact .stopped (by rw [hplanned]; rfl) (.cons hfirst hstored) hfailed

theorem StoresPart.mem_planned {disk after : Disk} {planned stored : List Output}
    (h : disk.StoresPart planned stored after) {output : Output} (houtput : output ∈ stored) :
    output ∈ planned := by
  cases h with
  | all => exact houtput
  | stopped hplanned => exact hplanned ▸ List.mem_append_left _ houtput

/-! ## What is left behind -/

theorem placeOf_congr {disk after : Disk} (h : after.workingDirectory = disk.workingDirectory)
    (path : Path) : after.placeOf path = disk.placeOf path := by
  rw [placeOf, placeOf, start, start, h]

/-- Apart from new directories, the second disk differs from the first only where it holds one of
the files. -/
structure Changes (disk : Disk) (outputs : List Output) (after : Disk) : Prop where
  at? : ∀ place, after.at? place = disk.at? place ∨
    (disk.at? place = none ∧ after.at? place = some .directory) ∨
    ∃ output ∈ outputs, disk.placeOf output.target = place ∧
      after.at? place = some (.file output.text.toUTF8)
  workingDirectory : after.workingDirectory = disk.workingDirectory

theorem GainsDirectories.changes {disk after : Disk} (h : GainsDirectories disk after)
    (outputs : List Output) : Changes disk outputs after := by
  refine ⟨fun place => ?_, h.workingDirectory⟩
  rcases h.at? place with hsame | hnew
  · exact .inl hsame
  · exact .inr (.inl hnew)

theorem Changes.trans {disk middle after : Disk} {first second : List Output}
    (hfirst : Changes disk first middle) (hsecond : Changes middle second after) :
    Changes disk (first ++ second) after := by
  refine ⟨fun place => ?_, hsecond.workingDirectory.trans hfirst.workingDirectory⟩
  rcases hsecond.at? place with hsame | ⟨hnone, hnew⟩ | ⟨output, hmem, hplace, hfile⟩
  · rw [hsame]
    rcases hfirst.at? place with hbefore | hbefore | ⟨output, hmem, hplace, hfile⟩
    · exact .inl hbefore
    · exact .inr (.inl hbefore)
    · exact .inr (.inr ⟨output, List.mem_append_left _ hmem, hplace, hfile⟩)
  · -- What is new for the second run was not there before the first: nothing is ever removed.
    rcases hfirst.at? place with hbefore | ⟨-, hmade⟩ | ⟨_, -, -, hfile⟩
    · exact .inr (.inl ⟨hbefore ▸ hnone, hnew⟩)
    · exact absurd (hmade.symm.trans hnone) (by simp)
    · exact absurd (hfile.symm.trans hnone) (by simp)
  · rw [placeOf_congr hfirst.workingDirectory] at hplace
    exact .inr (.inr ⟨output, List.mem_append_right _ hmem, hplace, hfile⟩)

theorem Prepares.gainsDirectories {disk after : Disk} {target : Path}
    (h : disk.Prepares target after) : GainsDirectories disk after := by
  cases h with
  | unneeded => exact .refl disk
  | @made directory _ _ hmade =>
      have hgains := gainsDirectories_createDirectories disk directory
      rwa [hmade] at hgains

theorem FailsToStore.gainsDirectories {disk after : Disk} {output : Output}
    (h : disk.FailsToStore output after) : GainsDirectories disk after := by
  cases h with
  | @directory directory _ _ _ hfault =>
      have hgains := gainsDirectories_createDirectories disk directory
      rwa [hfault] at hgains
  | file hdirectory => exact hdirectory.gainsDirectories

/-- A file that has been stored is there. -/
theorem Stores.at?_placeOf {disk after : Disk} {output : Output} (h : disk.Stores output after) :
    after.at? (disk.placeOf output.target) = some (.file output.text.toUTF8) := by
  obtain ⟨hdirectory, hfile⟩ := h
  obtain ⟨hplace, rfl⟩ := writeText_eq hfile
  rw [placeOf_congr hdirectory.gainsDirectories.workingDirectory] at hplace ⊢
  rw [at?_put hplace, if_pos rfl]

theorem Stores.changes {disk after : Disk} {output : Output} (h : disk.Stores output after) :
    Changes disk [output] after := by
  have hown := h.at?_placeOf
  obtain ⟨hdirectory, hfile⟩ := h
  have hgains := hdirectory.gainsDirectories
  obtain ⟨hplace, rfl⟩ := writeText_eq hfile
  rw [placeOf_congr hgains.workingDirectory] at hplace hown ⊢
  refine ⟨fun place => ?_, hgains.workingDirectory⟩
  by_cases hsame : place = disk.placeOf output.target
  · rw [hsame]
    exact .inr (.inr ⟨output, List.mem_singleton_self _, rfl, hown⟩)
  · rw [at?_put hplace, if_neg hsame]
    exact (hgains.changes [output]).at? place

theorem StoresAll.changes {disk after : Disk} {outputs : List Output}
    (h : StoresAll disk outputs after) : Changes disk outputs after := by
  induction h with
  | nil disk => exact (GainsDirectories.refl disk).changes []
  | cons hfirst _ ih => exact hfirst.changes.trans ih

/-- A file stays where it is unless another one is stored at the same place. -/
theorem Changes.at?_eq_of_file {disk after : Disk} {outputs : List Output}
    (h : Changes disk outputs after) {place : Location} {content : ByteArray}
    (hfile : disk.at? place = some (.file content))
    (hother : ∀ output ∈ outputs, disk.placeOf output.target ≠ place) :
    after.at? place = some (.file content) := by
  rcases h.at? place with hsame | ⟨hnone, -⟩ | ⟨output, hmem, hplace, -⟩
  · rw [hsame, hfile]
  · exact absurd (hfile.symm.trans hnone) (by simp)
  · exact absurd hplace (hother output hmem)

/-- Of the files stored at one place, the last one is there in the end. -/
theorem StoresAll.at?_placeOf {disk after : Disk} {earlier later : List Output} {output : Output}
    (h : StoresAll disk (earlier ++ output :: later) after)
    (hlast : ∀ other ∈ later, disk.placeOf other.target ≠ disk.placeOf output.target) :
    after.at? (disk.placeOf output.target) = some (.file output.text.toUTF8) := by
  obtain ⟨before, hearlier, hrest⟩ := h.exists_of_append
  cases hrest with
  | @cons _ middle _ _ _ hstored hlater =>
      -- Places do not depend on what is stored, so all of them can be told on the first disk.
      have hbefore := placeOf_congr hearlier.changes.workingDirectory
      have hmiddle := placeOf_congr hstored.changes.workingDirectory
      have hfile := hstored.at?_placeOf
      rw [hbefore] at hfile
      refine hlater.changes.at?_eq_of_file hfile fun other hother => ?_
      rw [hmiddle, hbefore]
      exact hlast other hother

/-- The file that could not be stored may have left directories, but nothing else. -/
theorem StoresPart.exists_storesAll {disk after : Disk} {planned stored : List Output}
    (h : disk.StoresPart planned stored after) :
    ∃ middle, StoresAll disk stored middle ∧ GainsDirectories middle after := by
  cases h with
  | all h => exact ⟨after, h, .refl after⟩
  | stopped _ hstored hfailed => exact ⟨_, hstored, hfailed.gainsDirectories⟩

theorem StoresPart.changes {disk after : Disk} {planned stored : List Output}
    (h : disk.StoresPart planned stored after) : Changes disk stored after := by
  obtain ⟨middle, hstored, hgains⟩ := h.exists_storesAll
  have hall := hstored.changes.trans (hgains.changes [])
  rwa [List.append_nil] at hall

theorem StoresPart.at?_placeOf {disk after : Disk} {planned earlier later : List Output}
    {output : Output} (h : disk.StoresPart planned (earlier ++ output :: later) after)
    (hlast : ∀ other ∈ later, disk.placeOf other.target ≠ disk.placeOf output.target) :
    after.at? (disk.placeOf output.target) = some (.file output.text.toUTF8) := by
  obtain ⟨middle, hstored, hgains⟩ := h.exists_storesAll
  exact (hgains.changes []).at?_eq_of_file (hstored.at?_placeOf hlast) (by simp)

end Disk

end DomTemplate

import Mathlib
import DomTemplate.Proofs.Files.Parents
import DomTemplate.Proofs.Files.Reads

/-!
# The nearest project file

The project file of a directory is looked for in the directory itself and then in each of its
parents, until one is found or there is no parent any more.
-/

namespace DomTemplate

theorem isName_projectFileName : Path.IsName (Text.bytes projectFileName) :=
  ⟨by decide +kernel, by decide +kernel, by decide +kernel⟩

/-- Looking for a value one by one, in a state that is left alone, finds the first one. -/
theorem run_findM? {σ α : Type} {p : α → StateM σ Bool} {q : α → Bool} {s : σ}
    (hp : ∀ a, StateT.run (p a) s = (q a, s)) (values : List α) :
    StateT.run (values.findM? p) s = (values.find? q, s) := by
  induction values with
  | nil => rfl
  | cons a values ih =>
      rw [List.findM?, StateT.run_bind, hp, List.find?_cons]
      cases q a with
      | true => rfl
      | false => exact ih

namespace Project

theorem getElem?_candidates (start : Path) (steps : Nat) :
    (candidates start)[steps]? = (start.above? steps).map (·.join (.ofText projectFileName)) := by
  rw [candidates, List.getElem?_map, Path.getElem?_ancestors]

theorem find?_candidates_eq_some_iff {present : Path → Bool} {start file : Path} :
    (candidates start).find? present = some file ↔
      ∃ steps directory, start.above? steps = some directory ∧
        file = directory.join (.ofText projectFileName) ∧ present file = true ∧
        ∀ fewer < steps, ∀ nearer, start.above? fewer = some nearer →
          present (nearer.join (.ofText projectFileName)) = false := by
  rw [List.find?_eq_some_iff_getElem]
  constructor
  · rintro ⟨hpresent, steps, hsteps, hfile, hfirst⟩
    -- The number of steps up is the index of the candidate.
    have hfound := getElem?_candidates start steps
    rw [List.getElem?_eq_getElem hsteps, hfile] at hfound
    obtain ⟨directory, hdirectory, rfl⟩ := Option.map_eq_some_iff.mp hfound.symm
    refine ⟨steps, directory, hdirectory, rfl, hpresent, fun fewer hfewer nearer hnearer => ?_⟩
    have hother := getElem?_candidates start fewer
    rw [hnearer, List.getElem?_eq_getElem (hfewer.trans hsteps)] at hother
    have habsent := hfirst fewer hfewer
    rw [Option.some.inj hother] at habsent
    simpa using habsent
  · rintro ⟨steps, directory, hdirectory, rfl, hpresent, hfirst⟩
    have hfound := getElem?_candidates start steps
    rw [hdirectory, Option.map_some, List.getElem?_eq_some_iff] at hfound
    obtain ⟨hsteps, hfile⟩ := hfound
    refine ⟨hpresent, steps, hsteps, hfile, fun fewer hfewer => ?_⟩
    have hother := getElem?_candidates start fewer
    rw [List.getElem?_eq_getElem (hfewer.trans hsteps)] at hother
    obtain ⟨nearer, hnearer, hcandidate⟩ := Option.map_eq_some_iff.mp hother.symm
    rw [← hcandidate, hfirst fewer hfewer nearer hnearer]
    rfl

theorem find?_candidates_eq_none_iff {present : Path → Bool} {start : Path} :
    (candidates start).find? present = none ↔
      ∀ steps directory, start.above? steps = some directory →
        present (directory.join (.ofText projectFileName)) = false := by
  rw [List.find?_eq_none]
  constructor
  · intro h steps directory hdirectory
    have hmem : directory.join (.ofText projectFileName) ∈ candidates start := by
      rw [List.mem_iff_getElem?]
      exact ⟨steps, by rw [getElem?_candidates, hdirectory, Option.map_some]⟩
    simpa using h _ hmem
  · intro h file hfile
    obtain ⟨steps, hsteps⟩ := List.mem_iff_getElem?.mp hfile
    rw [getElem?_candidates] at hsteps
    obtain ⟨directory, hdirectory, rfl⟩ := Option.map_eq_some_iff.mp hsteps
    simp [h steps directory hdirectory]

end Project

/-- The project file that is found is that of the first directory on the way up that has one.  The
way goes through the beginnings of the path it starts from and ends where there is no parent, and no
file is found only if there is none on it. -/
theorem find?_nearest {σ : Type} [FileAccess (StateM σ)] (present : σ → Path → Bool)
    (hpresent : ∀ path s, StateT.run (FileAccess.isPresent path : StateM σ Bool) s =
      (present s path, s)) (start : Path) (s : σ) :
    ∃ found, StateT.run (Project.find? start : StateM σ (Option Path)) s = (found, s) ∧
      (∀ file, found = some file ↔
        ∃ steps directory, start.above? steps = some directory ∧
          file = directory.join (.ofText projectFileName) ∧ present s file = true ∧
          ∀ fewer < steps, ∀ nearer, start.above? fewer = some nearer →
            present s (nearer.join (.ofText projectFileName)) = false) ∧
      (found = none ↔ ∀ steps directory, start.above? steps = some directory →
        present s (directory.join (.ofText projectFileName)) = false) ∧
      (∃ steps ≤ start.bytes.length, ∃ top, start.above? steps = some top ∧
        top.parent? = none) ∧
      ∀ file, found = some file →
        (∃ directory : Path, directory.components <+: start.components ∧
          file.components = directory.components ++ [.name (Text.bytes projectFileName)]) ∧
        (start.isAbsolute = false → file.isAbsolute = false) := by
  refine ⟨(Project.candidates start).find? (present s), run_findM? (fun path => hpresent path s) _,
    fun file => Project.find?_candidates_eq_some_iff, Project.find?_candidates_eq_none_iff, ?_,
    fun file hfile => ?_⟩
  · -- Every step up drops a byte at least, so the length bounds the number of steps.
    obtain ⟨steps, top, hsteps, htop⟩ := start.exists_topmost
    have hlength := Path.length_above hsteps
    exact ⟨steps, by omega, top, hsteps, htop⟩
  · obtain ⟨steps, directory, hdirectory, rfl, -⟩ := Project.find?_candidates_eq_some_iff.mp hfile
    have hway := Path.components_above_prefix hdirectory
    have hcomponents := Path.components_join directory isName_projectFileName
    refine ⟨⟨directory, hway, hcomponents⟩, fun hrelative => ?_⟩
    -- A path is absolute where the root is one of its components.
    rw [← Bool.not_eq_true, Path.isAbsolute_iff] at hrelative ⊢
    rw [hcomponents, List.mem_append, not_or]
    exact ⟨fun hroot => hrelative (hway.subset hroot), by simp⟩

/-- A working directory with a project file below it, and one above it that no relative path leads
to. -/
def Disk.nested : Disk where
  entries :=
    [(place ["r"], .directory), (place ["r", "tplc.toml"], .file "".toUTF8), (place ["r", "w"], .directory),
      (place ["r", "w", "ui"], .directory), (place ["r", "w", "ui", "tplc.toml"], .file "".toUTF8),
      (place ["r", "w", "ui", "cards"], .directory), (place ["r", "w", "ui", "cards", "new"], .directory),
      (place ["r", "w", "lib"], .directory)]
  workingDirectory := place ["r", "w"]

theorem find?_nearest_nested :
    (Disk.nested.run (Project.find? (.ofText "ui/cards/./new/"))).1 = some (.ofText "ui/tplc.toml") ∧
      (Disk.nested.run (Project.find? (.ofText "lib"))).1 = none := by
  obtain ⟨found, hfound, hsome, -⟩ :=
    find?_nearest Disk.isPresent (fun _ _ => rfl) (.ofText "ui/cards/./new/") Disk.nested
  obtain ⟨missed, hmissed, -, hnone, -⟩ :=
    find?_nearest Disk.isPresent (fun _ _ => rfl) (.ofText "lib") Disk.nested
  rw [Disk.run, Disk.run, hfound, hmissed]
  refine ⟨(hsome _).mpr ⟨2, .ofText "ui", by decide +kernel, by decide +kernel, by decide +kernel, ?_⟩,
    hnone.mpr ?_⟩
  · intro fewer hfewer nearer hnearer
    have hnone : ∀ path ∈ (Path.ofText "ui/cards/./new/").above? fewer,
        Disk.nested.isPresent (path.join (.ofText projectFileName)) = false := by
      interval_cases fewer <;> decide +kernel
    exact hnone nearer hnearer
  · intro steps directory hdirectory
    have hsteps : steps ≤ 3 := le_trans (Nat.le_add_left _ _) (Path.length_above hdirectory)
    have hnone : ∀ path ∈ (Path.ofText "lib").above? steps,
        Disk.nested.isPresent (path.join (.ofText projectFileName)) = false := by
      interval_cases steps <;> decide +kernel
    exact hnone directory hdirectory

end DomTemplate

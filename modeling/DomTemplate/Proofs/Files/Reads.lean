import Mathlib
import DomTemplate.Command.Inspect
import DomTemplate.Proofs.Files.Places

/-!
# Commands that only look at the disk

Finding out what to compile and compiling it leave the disk as it is.  So all templates are compiled
from the disk as it was when the command started, and checking or dumping them changes nothing.
-/

namespace DomTemplate

variable {α β : Type}

/-- What a computation on a disk gives, and the disk it leaves. -/
def Disk.run (disk : Disk) (x : StateM Disk α) : α × Disk :=
  StateT.run x disk

theorem Disk.run_bind (disk : Disk) (x : StateM Disk α) (f : α → StateM Disk β) :
    disk.run (x >>= f) = (disk.run x).2.run (f (disk.run x).1) :=
  rfl

/-- A computation that leaves every disk as it is. -/
def OnlyReads (x : StateM Disk α) : Prop :=
  ∀ disk, (Disk.run disk x).2 = disk

namespace OnlyReads

theorem pure (a : α) : OnlyReads (Pure.pure a : StateM Disk α) :=
  fun _ => rfl

theorem bind {x : StateM Disk α} {f : α → StateM Disk β} (hx : OnlyReads x)
    (hf : ∀ a, OnlyReads (f a)) : OnlyReads (x >>= f) := by
  intro disk
  rw [Disk.run_bind, hx disk, hf]

theorem readText (path : Path) : OnlyReads (FileAccess.readText path) :=
  fun _ => rfl

theorem isPresent (path : Path) : OnlyReads (FileAccess.isPresent path) :=
  fun _ => rfl

theorem isDirectory (path : Path) : OnlyReads (FileAccess.isDirectory path) :=
  fun _ => rfl

theorem findM? {p : α → StateM Disk Bool} (hp : ∀ a, OnlyReads (p a)) (values : List α) :
    OnlyReads (values.findM? p) := by
  induction values with
  | nil => exact pure _
  | cons a values ih =>
      refine bind (hp a) fun found => ?_
      cases found with
      | true => exact pure _
      | false => exact ih

theorem load (file : Path) : OnlyReads (Project.load file : StateM Disk _) := by
  refine bind (readText file) fun text => ?_
  cases text with
  | ok text => exact pure _
  | error fault => exact pure _

theorem find? (directory : Path) : OnlyReads (Project.find? directory : StateM Disk _) :=
  findM? isPresent _

theorem resolveInput (input : Path) : OnlyReads (DomTemplate.resolveInput input) := by
  refine bind (isDirectory input) fun directory => ?_
  split
  · refine bind (isPresent _) fun present => ?_
    split
    · refine bind (load _) fun project => ?_
      cases project with
      | ok project => exact pure _
      | error diagnostic => exact pure _
    · exact pure _
  · split
    · refine bind (find? _) fun file => ?_
      cases file with
      | none => exact pure _
      | some file =>
          refine bind (load file) fun project => ?_
          cases project with
          | ok project => exact pure _
          | error diagnostic => exact pure _
    · exact pure _

theorem compileFile (options : Options) (path : Path) :
    OnlyReads (DomTemplate.compileFile options path) := by
  refine bind (readText path) fun source => ?_
  cases source with
  | ok source => exact pure _
  | error fault => exact pure _

/-- Computations that only read give the same results one after the other as each on its own. -/
theorem run_mapM {f : α → StateM Disk β} (hf : ∀ a, OnlyReads (f a)) (values : List α)
    (disk : Disk) :
    disk.run (values.mapM f) = (values.map fun a => (disk.run (f a)).1, disk) := by
  induction values with
  | nil => rfl
  | cons a values ih =>
      rw [List.mapM_cons, Disk.run_bind, hf a disk, Disk.run_bind, ih]
      rfl

end OnlyReads

/-! ## Compiling from a disk -/

/-- What a template on a disk compiles to; nothing if it cannot be read, if it is no template, or if
one of its roots is refused. -/
def Disk.artifact? (disk : Disk) (options : Options) (entry : Path) : Option Artifact :=
  match disk.readText entry with
  | .ok source => (compileSource source options).toOption
  | .error _ => none

theorem path_compileFile (options : Options) (path : Path) (disk : Disk) :
    (disk.run (compileFile options path)).1.path = path := by
  have hread : disk.run (FileAccess.readText path) = (disk.readText path, disk) := rfl
  rw [compileFile, Disk.run_bind, hread]
  cases disk.readText path with
  | ok source => rfl
  | error fault => rfl

theorem toOption_result_compileFile (options : Options) (path : Path) (disk : Disk) :
    (disk.run (compileFile options path)).1.result.toOption = disk.artifact? options path := by
  have hread : disk.run (FileAccess.readText path) = (disk.readText path, disk) := rfl
  rw [compileFile, Disk.run_bind, hread, Disk.artifact?]
  cases disk.readText path with
  | ok source =>
      have herror : ∀ result : Except SourceError Artifact,
          (result.mapError SourceError.toDiagnostic).toOption = result.toOption := by
        intro result
        cases result <;> rfl
      exact herror (compileSource source options)
  | error fault => rfl

theorem run_compileFiles (options : Options) (paths : List Path) (disk : Disk) :
    disk.run (compileFiles options paths) =
      (paths.map fun path => (disk.run (compileFile options path)).1, disk) :=
  OnlyReads.run_mapM (OnlyReads.compileFile options) paths disk

/-! ## Checking and dumping -/

/-- An input stands for templates, with the project they belong to. -/
def Disk.Resolves (disk : Disk) (input : Path) (inputs : Inputs) : Prop :=
  (disk.run (resolveInput input)).1 = .ok inputs

theorem Report.code_concat_eq_zero_iff (reports : List Report) :
    (Report.concat reports).code = 0 ↔ ∀ report ∈ reports, report.code = 0 := by
  induction reports with
  | nil => simp [Report.concat]
  | cons report reports ih =>
      rw [Report.concat, List.forall_mem_cons, ← ih]
      by_cases h : report.code = 0 <;> simp [h]

/-- Looking at templates changes nothing, and it succeeds if the input stands for templates and
each of these compiles. -/
theorem inspect_effect {report : CompiledFile → Report}
    (hreport : ∀ file, (report file).code = 0 ↔ file.result.toOption.isSome)
    (input : Path) (svg noNormalize : Bool) (disk : Disk) :
    (disk.run (inspect input svg noNormalize report)).2 = disk ∧
      ((disk.run (inspect input svg noNormalize report)).1.code = 0 ↔
        ∃ inputs, disk.Resolves input inputs ∧
          ∀ entry ∈ inputs.entries,
            (disk.artifact? (inputs.options svg noNormalize) entry).isSome) := by
  rw [inspect, Disk.run_bind, OnlyReads.resolveInput input disk]
  unfold Disk.Resolves
  cases (disk.run (resolveInput input)).1 with
  | error message =>
      have hfailure : (Report.failure message).code ≠ 0 := by simp [Report.failure]
      exact ⟨rfl, fun h => absurd h hfailure, fun ⟨_, h, _⟩ => absurd h (by simp)⟩
  | ok inputs =>
      simp only [Disk.run_bind, run_compileFiles]
      refine ⟨rfl, ?_⟩
      have hcode : (Report.concat ((inputs.entries.map fun path =>
          (disk.run (compileFile (inputs.options svg noNormalize) path)).1).map report)).code = 0 ↔
            ∀ entry ∈ inputs.entries,
              (disk.artifact? (inputs.options svg noNormalize) entry).isSome := by
        simp only [Report.code_concat_eq_zero_iff, List.forall_mem_map, hreport,
          toOption_result_compileFile]
      refine hcode.trans ⟨fun h => ⟨inputs, rfl, h⟩, ?_⟩
      rintro ⟨others, hothers, h⟩
      rwa [Except.ok.inj hothers]

theorem code_checkReport_eq_zero_iff (file : CompiledFile) :
    (checkReport file).code = 0 ↔ file.result.toOption.isSome := by
  unfold checkReport
  cases file.result <;> simp [Except.toOption]

theorem code_dumpReport_eq_zero_iff (full : Bool) (file : CompiledFile) :
    (dumpReport full file).code = 0 ↔ file.result.toOption.isSome := by
  unfold dumpReport
  cases file.result <;> simp [Except.toOption]

end DomTemplate

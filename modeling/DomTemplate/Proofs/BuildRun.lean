import Mathlib
import DomTemplate.Proofs.Files.Reads
import DomTemplate.Proofs.Files.Stores

/-!
# What a build does to the disk

All templates are compiled from the disk as it was.  The artifacts of those that compile are stored
in the order of the templates, and only one that cannot be stored ends the run.
-/

namespace DomTemplate

/-! ## Storing one artifact -/

theorem run_createDirectories (disk : Disk) (path : Path) :
    disk.run (FileAccess.createDirectories path) = disk.createDirectories path :=
  rfl

theorem run_writeText (disk : Disk) (path : Path) (text : String) :
    disk.run (FileAccess.writeText path text) =
      match disk.writeText path text with
      | .ok after => (.ok (), after)
      | .error fault => (.error fault, disk) := by
  have hrun : disk.run (FileAccess.writeText path text) =
      disk.run (match disk.writeText path text with
        | .ok disk => do set disk; return .ok ()
        | .error fault => return .error fault) := rfl
  rw [hrun]
  cases disk.writeText path text with
  | ok after => rfl
  | error fault => rfl

/-- The directory of a file is made, or the fault is that of making it. -/
theorem run_prepare (disk : Disk) (target : Path) :
    (∃ after, disk.run (prepare target) = (.ok (), after) ∧ disk.Prepares target after) ∨
      ∃ message directory fault after, disk.run (prepare target) = (.error message, after) ∧
        neededDirectory target = some directory ∧
        disk.createDirectories directory = (.error fault, after) := by
  rw [prepare]
  cases hneeded : neededDirectory target with
  | none => exact .inl ⟨disk, rfl, .unneeded hneeded⟩
  | some directory =>
      simp only [Disk.run_bind, run_createDirectories]
      rcases hmade : disk.createDirectories directory with ⟨result, after⟩
      cases result with
      | ok _ => exact .inl ⟨after, rfl, .made hneeded hmade⟩
      | error fault => exact .inr ⟨_, directory, fault, after, rfl, rfl, hmade⟩

/-- A file is stored, or it is not and the run can tell why. -/
theorem run_store (disk : Disk) (output : Output) :
    (∃ after, disk.run (store output.target output.text) = (.ok (), after) ∧
        disk.Stores output after) ∨
      ∃ message after, disk.run (store output.target output.text) = (.error message, after) ∧
        disk.FailsToStore output after := by
  rw [store]
  simp only [Disk.run_bind]
  rcases run_prepare disk output.target with ⟨middle, hrun, hprepares⟩ |
    ⟨message, directory, fault, after, hrun, hneeded, hfault⟩
  · rw [hrun]
    simp only [Disk.run_bind, run_writeText]
    cases hwritten : middle.writeText output.target output.text with
    | ok after => exact .inl ⟨after, rfl, .intro hprepares hwritten⟩
    | error fault => exact .inr ⟨_, middle, rfl, .file hprepares hwritten⟩
  · rw [hrun]
    exact .inr ⟨message, after, rfl, .directory hneeded hfault⟩

/-! ## Storing all artifacts -/

/-- The artifact files of compiled templates, in order. -/
def outputsOf (request : BuildRequest) (project : Option Project) (files : List CompiledFile) :
    List Output :=
  files.filterMap fun file => file.result.toOption.map fun artifact =>
    ⟨request.target project file.path, artifact.encode.toText⟩

/-- The artifacts of the compiled templates are stored in order.  A template that did not compile is
passed over, but the run then fails. -/
theorem run_storeAll (request : BuildRequest) (project : Option Project)
    (files : List CompiledFile) (disk : Disk) :
    ∃ stored,
      disk.StoresPart (outputsOf request project files) stored
        (disk.run (storeAll request project files)).2 ∧
      ((disk.run (storeAll request project files)).1.code = 0 ↔
        (∀ file ∈ files, file.result.toOption.isSome) ∧
          stored = outputsOf request project files) := by
  induction files generalizing disk with
  | nil => exact ⟨[], .all (.nil disk), fun _ => ⟨by simp, rfl⟩, fun _ => rfl⟩
  | cons file files ih =>
      rw [storeAll]
      cases hresult : file.result with
      | error diagnostic =>
          -- Nothing is planned for the template, but whatever follows, the run has failed.
          have houtputs : outputsOf request project (file :: files) =
              outputsOf request project files := by
            simp [outputsOf, hresult, Except.toOption]
          obtain ⟨stored, hstored, -⟩ := ih disk
          rw [houtputs]
          refine ⟨stored, hstored, ?_, ?_⟩
          · intro hcode
            exact absurd (show (1 : UInt32) = 0 from hcode) (by decide)
          · rintro ⟨hall, -⟩
            exact absurd (hall file (by simp)) (by simp [hresult, Except.toOption])
      | ok artifact =>
          have houtputs : outputsOf request project (file :: files) =
              ⟨request.target project file.path, artifact.encode.toText⟩ ::
                outputsOf request project files := by
            simp [outputsOf, hresult, Except.toOption]
          have hfile : file.result.toOption.isSome := by simp [hresult, Except.toOption]
          rw [houtputs]
          simp only [Disk.run_bind]
          rcases run_store disk ⟨request.target project file.path, artifact.encode.toText⟩ with
            ⟨middle, hrun, hstores⟩ | ⟨message, after, hrun, hfails⟩
          · -- The other templates find the disk as the artifact has left it.
            obtain ⟨stored, hstored, hcode⟩ := ih middle
            simp only [hrun]
            refine ⟨_ :: stored, .cons hstores hstored, hcode.trans ?_⟩
            simp [hfile]
          · simp only [hrun]
            refine ⟨[], .stopped (List.nil_append _).symm (.nil disk) hfails, ?_, ?_⟩
            · intro hcode
              exact absurd (show (1 : UInt32) = 0 from hcode) (by decide)
            · rintro ⟨-, hnone⟩
              exact absurd hnone (by simp)

/-! ## Building -/

/-- The artifact file of a template, if it compiles from a disk. -/
def BuildRequest.planned? (request : BuildRequest) (inputs : Inputs) (disk : Disk) (entry : Path) :
    Option Output :=
  (disk.artifact? (inputs.options request.svg request.noNormalize) entry).map fun artifact =>
    ⟨request.target inputs.project entry, artifact.encode.toText⟩

/-- The artifact files of the templates that compile from a disk. -/
def BuildRequest.planned (request : BuildRequest) (inputs : Inputs) (disk : Disk) : List Output :=
  inputs.entries.filterMap (request.planned? inputs disk)

theorem outputsOf_compiled (request : BuildRequest) (inputs : Inputs) (disk : Disk) :
    outputsOf request inputs.project (inputs.entries.map fun entry =>
      (disk.run (compileFile (inputs.options request.svg request.noNormalize) entry)).1) =
        request.planned inputs disk := by
  rw [outputsOf, List.filterMap_map, BuildRequest.planned]
  refine List.filterMap_congr fun entry _ => ?_
  rw [Function.comp_apply, toOption_result_compileFile, path_compileFile, BuildRequest.planned?]

theorem exists_artifact_of_mem_filterMap {request : BuildRequest} {inputs : Inputs} {disk : Disk}
    {entries : List Path} {output : Output}
    (h : output ∈ entries.filterMap (request.planned? inputs disk)) :
    ∃ entry ∈ entries, ∃ artifact,
      disk.artifact? (inputs.options request.svg request.noNormalize) entry = some artifact ∧
        output = ⟨request.target inputs.project entry, artifact.encode.toText⟩ := by
  obtain ⟨entry, hentry, houtput⟩ := List.mem_filterMap.mp h
  obtain ⟨artifact, hartifact, rfl⟩ := Option.map_eq_some_iff.mp houtput
  exact ⟨entry, hentry, artifact, hartifact, rfl⟩

/-- A build compiles from the disk as it was and stores what it planned, as far as that goes. -/
theorem run_build {request : BuildRequest} {inputs : Inputs} {disk : Disk}
    (hinputs : disk.Resolves request.input inputs)
    (houtput : request.output = none ∨ inputs.entries.length ≤ 1) :
    ∃ stored,
      disk.StoresPart (request.planned inputs disk) stored (disk.run (build request)).2 ∧
      ((disk.run (build request)).1.code = 0 ↔
        (∀ entry ∈ inputs.entries,
          (disk.artifact? (inputs.options request.svg request.noNormalize) entry).isSome) ∧
            stored = request.planned inputs disk) := by
  have haccepted : (request.output.isSome && decide (1 < inputs.entries.length)) = false := by
    rcases houtput with h | h
    · simp [h]
    · simp [Nat.not_lt.mpr h]
  rw [build, Disk.run_bind, OnlyReads.resolveInput, show _ = _ from hinputs]
  simp only [haccepted, Bool.false_eq_true, if_false, Disk.run_bind, run_compileFiles]
  have hstored := run_storeAll request inputs.project (inputs.entries.map fun entry =>
    (disk.run (compileFile (inputs.options request.svg request.noNormalize) entry)).1) disk
  simpa only [outputsOf_compiled, List.forall_mem_map, toOption_result_compileFile] using hstored

/-- An artifact goes where the request says, else where the project says, else next to its
template. -/
theorem BuildRequest.target_eq (request : BuildRequest) (project : Option Project) (entry : Path) :
    request.target project entry =
      request.output.getD ((project.map (·.outputPath entry)).getD (artifactBeside entry)) := by
  unfold target
  cases request.output <;> cases project <;> rfl

/-- What a request says about dialect and normalization goes over the settings of the project. -/
theorem Inputs.options_eq (inputs : Inputs) (svg noNormalize : Bool) :
    inputs.options svg noNormalize =
      { dialect := if svg then some .svg else inputs.project.bind (·.dialect)
        normalize := !noNormalize && (inputs.project.map (·.normalize)).getD true } := by
  unfold options
  cases inputs.project <;> cases noNormalize <;> rfl

/-- What a build that has stored some artifacts leaves on the disk, and the code it ends with. -/
structure BuildEffect (request : BuildRequest) (inputs : Inputs) (disk : Disk)
    (stored : List Output) (report : Report) (after : Disk) : Prop where
  /-- Only an artifact that cannot be stored keeps those behind it from being stored. -/
  order : disk.StoresPart (request.planned inputs disk) stored after
  /-- The last artifact stored at a place is there. -/
  kept : ∀ earlier output later, stored = earlier ++ output :: later →
    (∀ other ∈ later, disk.placeOf other.target ≠ disk.placeOf output.target) →
      after.at? (disk.placeOf output.target) = some (.file output.text.toUTF8)
  /-- Apart from new directories, a place changes only for a template that compiles. -/
  changed : ∀ place, after.at? place = disk.at? place ∨
    (disk.at? place = none ∧ after.at? place = some .directory) ∨
    ∃ entry ∈ inputs.entries, ∃ artifact,
      disk.artifact? (inputs.options request.svg request.noNormalize) entry = some artifact ∧
        disk.placeOf (request.target inputs.project entry) = place ∧
        after.at? place = some (.file artifact.encode.toText.toUTF8)
  /-- The place of a template that does not compile is left alone. -/
  untouched : ∀ entry ∈ inputs.entries,
    disk.artifact? (inputs.options request.svg request.noNormalize) entry = none →
    (∀ other ∈ inputs.entries,
      (disk.artifact? (inputs.options request.svg request.noNormalize) other).isSome →
        disk.placeOf (request.target inputs.project other) ≠
          disk.placeOf (request.target inputs.project entry)) →
    after.at? (disk.placeOf (request.target inputs.project entry)) =
        disk.at? (disk.placeOf (request.target inputs.project entry)) ∨
      (disk.at? (disk.placeOf (request.target inputs.project entry)) = none ∧
        after.at? (disk.placeOf (request.target inputs.project entry)) = some .directory)
  code : report.code = 0 ↔
    (∀ entry ∈ inputs.entries,
      (disk.artifact? (inputs.options request.svg request.noNormalize) entry).isSome) ∧
        stored = request.planned inputs disk

theorem changed_of_storesPart {request : BuildRequest} {inputs : Inputs} {disk after : Disk}
    {stored : List Output}
    (h : disk.StoresPart (request.planned inputs disk) stored after) (place : Location) :
    after.at? place = disk.at? place ∨
      (disk.at? place = none ∧ after.at? place = some .directory) ∨
      ∃ entry ∈ inputs.entries, ∃ artifact,
        disk.artifact? (inputs.options request.svg request.noNormalize) entry = some artifact ∧
          disk.placeOf (request.target inputs.project entry) = place ∧
          after.at? place = some (.file artifact.encode.toText.toUTF8) := by
  rcases h.changes.at? place with hsame | hnew | ⟨output, hmem, hplace, hfile⟩
  · exact .inl hsame
  · exact .inr (.inl hnew)
  · obtain ⟨entry, hentry, artifact, hartifact, rfl⟩ :=
      exists_artifact_of_mem_filterMap (h.mem_planned hmem)
    exact .inr (.inr ⟨entry, hentry, artifact, hartifact, hplace, hfile⟩)

/-- Building changes the disk only by artifacts of templates that compile, as they were when it
started, and by directories for them.  Checking and dumping change nothing.  Where an artifact goes
and how its template is compiled is up to the request first, and to the project then. -/
theorem commands_effect :
    (∀ (request : BuildRequest) (inputs : Inputs) (disk : Disk),
      disk.Resolves request.input inputs →
      (request.output = none ∨ inputs.entries.length ≤ 1) →
      ∃ stored, BuildEffect request inputs disk stored (disk.run (build request)).1
        (disk.run (build request)).2) ∧
    (∀ (request : CheckRequest) (disk : Disk),
      (disk.run (check request)).2 = disk ∧
        ((disk.run (check request)).1.code = 0 ↔
          ∃ inputs, disk.Resolves request.input inputs ∧
            ∀ entry ∈ inputs.entries,
              (disk.artifact? (inputs.options request.svg request.noNormalize) entry).isSome)) ∧
    (∀ (request : DumpRequest) (disk : Disk),
      (disk.run (dump request)).2 = disk ∧
        ((disk.run (dump request)).1.code = 0 ↔
          ∃ inputs, disk.Resolves request.input inputs ∧
            ∀ entry ∈ inputs.entries,
              (disk.artifact? (inputs.options request.svg request.noNormalize) entry).isSome)) ∧
    (∀ (request : BuildRequest) (project : Option Project) (entry : Path),
      request.target project entry =
        request.output.getD ((project.map (·.outputPath entry)).getD (artifactBeside entry))) ∧
    ∀ (inputs : Inputs) (svg noNormalize : Bool),
      inputs.options svg noNormalize =
        { dialect := if svg then some .svg else inputs.project.bind (·.dialect)
          normalize := !noNormalize && (inputs.project.map (·.normalize)).getD true } := by
  refine ⟨fun request inputs disk hinputs houtput => ?_, fun request disk => ?_,
    fun request disk => ?_, BuildRequest.target_eq, Inputs.options_eq⟩
  · obtain ⟨stored, hstored, hcode⟩ := run_build hinputs houtput
    refine ⟨stored, hstored, ?_, changed_of_storesPart hstored, ?_, hcode⟩
    · rintro earlier output later rfl hlast
      exact hstored.at?_placeOf hlast
    · intro entry hentry hfails hothers
      rcases changed_of_storesPart hstored _ with hsame | hnew |
        ⟨other, hother, artifact, hartifact, hplace, -⟩
      · exact .inl hsame
      · exact .inr hnew
      · exact absurd hplace (hothers other hother (by rw [hartifact]; rfl))
  · exact inspect_effect code_checkReport_eq_zero_iff request.input request.svg
      request.noNormalize disk
  · exact inspect_effect (code_dumpReport_eq_zero_iff request.full) request.input request.svg
      request.noNormalize disk

/-- A project with a template where the artifact of another one goes, and with one that is no
template. -/
def Disk.cards : Disk where
  entries :=
    [(place ["w"], .directory),
      (place ["w", "tplc.toml"], .file ("[project]\nname = \"cards\"\n" ++
        "entry = [\"card.json\", \"bad.json\", \"card.tpl.json\"]\n").toUTF8),
      (place ["w", "card.json"], .file "\x7b\"kind\":\"html\",\"children\":[]\x7d".toUTF8),
      (place ["w", "bad.json"], .file "\x7b".toUTF8),
      (place ["w", "card.tpl.json"], .file "\x7b\"kind\":\"svg\",\"children\":[]\x7d".toUTF8)]
  workingDirectory := place ["w"]

def Project.cards : Project where
  name := "cards"
  version := ""
  entries := [.ofText "./card.json", .ofText "./bad.json", .ofText "./card.tpl.json"]
  output := none
  directory := .ofText "."
  dialect := none
  normalize := true

/-- The first and the last template compile; the last one as it was before the artifact of the first
took its place. -/
theorem commands_effect_cards :
    Disk.cards.Resolves (.ofText ".") ⟨Project.cards.entries, some Project.cards⟩ ∧
      (Project.cards.entries.map fun entry =>
        (Disk.cards.artifact? Project.cards.options entry).isSome) = [true, false, true] ∧
      (∃ stored, BuildEffect ⟨.ofText ".", none, false, false⟩
        ⟨Project.cards.entries, some Project.cards⟩ Disk.cards stored
        (Disk.cards.run (build ⟨.ofText ".", none, false, false⟩)).1
        (Disk.cards.run (build ⟨.ofText ".", none, false, false⟩)).2) ∧
      (Disk.cards.run (check ⟨.ofText ".", false, false⟩)).2 = Disk.cards := by
  have hresolves : Disk.cards.Resolves (.ofText ".")
      ⟨Project.cards.entries, some Project.cards⟩ := by
    unfold Disk.Resolves
    decide +kernel
  exact ⟨hresolves, by decide +kernel, commands_effect.1 _ _ _ hresolves (.inl rfl),
    (commands_effect.2.1 _ _).1⟩

end DomTemplate

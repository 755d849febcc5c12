import Mathlib
import DomTemplate.Proofs.BuildRun
import DomTemplate.Proofs.Bytes
import DomTemplate.Proofs.Files.Names

/-!
# Templates that share an artifact file

The file of an artifact is named after the stem of its template.  It stands next to the template, or
in the output directory of the project whatever the directory of the template was.  So two templates
of a project can share a file, and then a build that succeeds leaves only the artifact of the last.
-/

namespace DomTemplate

/-! ## The name of an artifact file -/

theorem Path.slash_not_mem_fileName {path : Path} {name : List UInt8}
    (h : path.fileName? = some name) : slash ∉ name := by
  unfold fileName? at h
  split at h
  · exact absurd h (by simp)
  · next part hpart =>
    split_ifs at h
    obtain rfl := Option.some.inj h
    obtain ⟨idle, hidle⟩ := trimParts_append (Text.pieces slash (split path.bytes).2)
    have hmem : part ∈ Text.pieces slash (split path.bytes).2 :=
      hidle ▸ List.mem_append_left idle (List.mem_of_getLast? hpart)
    exact Text.not_mem_of_mem_pieces hmem

theorem Path.isPrefix_splitName (name : List UInt8) : (splitName name).1 <+: name := by
  unfold splitName
  split
  · exact List.prefix_rfl
  · exact List.prefix_rfl
  · next extension stem _ hsplit =>
    refine ⟨dot :: extension.reverse, ?_⟩
    have hname := congrArg List.reverse (Text.splitOnce_append hsplit)
    simpa using hname.symm

theorem Path.slash_not_mem_fileStem {path : Path} {stem : List UInt8}
    (h : path.fileStem? = some stem) : slash ∉ stem := by
  obtain ⟨name, hname, rfl⟩ := Option.map_eq_some_iff.mp h
  exact fun hslash => slash_not_mem_fileName hname ((isPrefix_splitName name).subset hslash)

/-- An artifact file has a proper name, whatever its template is called. -/
theorem isName_artifactFileName (input : Path) :
    Path.IsName (Text.bytes (artifactFileName input)) := by
  -- What replaces bytes of the stem is no slash.
  have hstem : Path.slash ∉ Text.bytes ((input.fileStem?.map Text.lossy).getD "template") := by
    cases h : input.fileStem? with
    | none => decide +kernel
    | some stem =>
        exact fun hslash => Path.slash_not_mem_fileStem h
          (Text.mem_of_mem_bytes_lossy (by decide) hslash)
  have hbytes : Text.bytes (artifactFileName input) =
      Text.bytes ((input.fileStem?.map Text.lossy).getD "template") ++ Text.bytes ".tpl.json" := by
    rw [artifactFileName, Text.bytes_append]
  -- The ending alone makes the name too long to be a dot or two.
  have hlength : 9 ≤ (Text.bytes (artifactFileName input)).length := by
    rw [hbytes, List.length_append]
    exact Nat.le_add_left _ _
  refine ⟨?_, ?_, ?_⟩
  · rw [hbytes]
    exact fun hslash => (List.mem_append.mp hslash).elim hstem (by decide +kernel)
  · generalize Text.bytes (artifactFileName input) = name at hlength
    unfold Path.isIdle
    rcases name with _ | ⟨c, _ | ⟨d, rest⟩⟩ <;> simp_all
  · intro hup
    rw [hup] at hlength
    exact absurd hlength (by decide)

/-! ## The path of an artifact file -/

/-- The directory of what a path names; the path itself if it does not end in a name. -/
def Path.directory (path : Path) : Path :=
  if path.fileName?.isSome then path.parent?.getD path else path

namespace Project

/-- Where the artifact file of a template lies. -/
def outputDirectory (project : Project) (input : Path) : Path :=
  project.output.getD input.directory

theorem outputPath_eq (project : Project) (input : Path) :
    project.outputPath input =
      (project.outputDirectory input).join (.ofText (artifactFileName input)) := by
  unfold outputPath outputDirectory
  cases project.output <;> rfl

theorem components_outputPath_eq_iff (project : Project) (first second : Path) :
    (project.outputPath first).components = (project.outputPath second).components ↔
      artifactFileName first = artifactFileName second ∧
        (project.outputDirectory first).components =
          (project.outputDirectory second).components := by
  rw [outputPath_eq, outputPath_eq, Path.components_join _ (isName_artifactFileName first),
    Path.components_join _ (isName_artifactFileName second)]
  simp [Text.bytes_injective.eq_iff, and_comm]

theorem placeOf_outputPath_eq_iff (project : Project) (disk : Disk) (first second : Path) :
    disk.placeOf (project.outputPath first) = disk.placeOf (project.outputPath second) ↔
      artifactFileName first = artifactFileName second ∧
        disk.placeOf (project.outputDirectory first) =
          disk.placeOf (project.outputDirectory second) := by
  rw [outputPath_eq, outputPath_eq, Disk.placeOf_join _ _ (isName_artifactFileName first),
    Disk.placeOf_join _ _ (isName_artifactFileName second), Array.push_eq_push,
    Text.bytes_injective.eq_iff, and_comm]

/-- Two templates whose artifacts have one file on a disk. -/
def SharesFile (project : Project) (disk : Disk) (first second : Path) : Prop :=
  artifactFileName first = artifactFileName second ∧
    disk.placeOf (project.outputDirectory first) = disk.placeOf (project.outputDirectory second)

end Project

/-! ## Building a project -/

/-- Of the templates that share a file, a build that succeeds leaves the artifact of the last. -/
theorem at?_placeOf_outputPath {request : BuildRequest} {project : Project} {disk : Disk}
    (hinputs : disk.Resolves request.input ⟨project.entries, some project⟩)
    (houtput : request.output = none) (hcode : (disk.run (build request)).1.code = 0)
    {earlier later : List Path} {last : Path}
    (hentries : project.entries = earlier ++ last :: later)
    (hlast : ∀ other ∈ later, ¬ project.SharesFile disk other last) :
    ∃ artifact,
      disk.artifact? ((Inputs.mk project.entries (some project)).options request.svg
        request.noNormalize) last = some artifact ∧
      ∀ entry, project.SharesFile disk entry last →
        (disk.run (build request)).2.at? (disk.placeOf (project.outputPath entry)) =
          some (.file artifact.encode.toText.toUTF8) := by
  obtain ⟨stored, hstored, hsuccess⟩ := run_build hinputs (.inl houtput)
  obtain ⟨hcompiled, rfl⟩ := hsuccess.mp hcode
  obtain ⟨artifact, hartifact⟩ :=
    Option.isSome_iff_exists.mp (hcompiled last (by simp [hentries]))
  refine ⟨artifact, hartifact, fun entry hshares => ?_⟩
  have htarget : ∀ path, request.target (some project) path = project.outputPath path := by
    intro path
    unfold BuildRequest.target
    rw [houtput]
  have hplanned : request.planned? ⟨project.entries, some project⟩ disk last =
      some ⟨project.outputPath last, artifact.encode.toText⟩ := by
    rw [BuildRequest.planned?, hartifact, Option.map_some, htarget]
  -- What is planned is cut where the last template stands that shares the file.
  have hsplit : request.planned ⟨project.entries, some project⟩ disk =
      earlier.filterMap (request.planned? ⟨project.entries, some project⟩ disk) ++
        ⟨project.outputPath last, artifact.encode.toText⟩ ::
          later.filterMap (request.planned? ⟨project.entries, some project⟩ disk) := by
    conv_lhs => rw [BuildRequest.planned, hentries]
    rw [List.filterMap_append, ← hentries, List.filterMap_cons_some hplanned]
  rw [hsplit] at hstored
  rw [(project.placeOf_outputPath_eq_iff disk entry last).mpr hshares]
  refine hstored.at?_placeOf fun output houtput hplace => ?_
  obtain ⟨other, hother, _, -, rfl⟩ := exists_artifact_of_mem_filterMap houtput
  rw [htarget] at hplace
  exact hlast other hother ((project.placeOf_outputPath_eq_iff disk other last).mp hplace)

/-- The artifacts of different templates have different paths unless two of the templates have the
same stem, and besides the same directory or a common output directory.  Where a file is shared, a
build that succeeds leaves one artifact for all templates that share it. -/
theorem outputs_apart_iff (project : Project) :
    ((∀ first ∈ project.entries, ∀ second ∈ project.entries, first.components ≠ second.components →
        (project.outputPath first).components ≠ (project.outputPath second).components) ↔
      ∀ first ∈ project.entries, ∀ second ∈ project.entries, first.components ≠ second.components →
        artifactFileName first = artifactFileName second →
          project.output = none ∧ first.directory.components ≠ second.directory.components) ∧
    ∀ (request : BuildRequest) (disk : Disk),
      disk.Resolves request.input ⟨project.entries, some project⟩ → request.output = none →
      (disk.run (build request)).1.code = 0 →
      ∀ (earlier later : List Path) (last : Path), project.entries = earlier ++ last :: later →
        (∀ other ∈ later, ¬ project.SharesFile disk other last) →
        ∃ artifact,
          disk.artifact? ((Inputs.mk project.entries (some project)).options request.svg
            request.noNormalize) last = some artifact ∧
          ∀ entry, project.SharesFile disk entry last →
            (disk.run (build request)).2.at? (disk.placeOf (project.outputPath entry)) =
              some (.file artifact.encode.toText.toUTF8) := by
  refine ⟨?_, fun request disk hinputs houtput hcode _ _ _ hentries hlast =>
    at?_placeOf_outputPath hinputs houtput hcode hentries hlast⟩
  have hdirectory : ∀ first second : Path,
      (artifactFileName first = artifactFileName second →
        project.output = none ∧ first.directory.components ≠ second.directory.components) ↔
      (project.outputPath first).components ≠ (project.outputPath second).components := by
    intro first second
    rw [ne_eq (project.outputPath first).components, project.components_outputPath_eq_iff, not_and,
      Project.outputDirectory, Project.outputDirectory]
    cases project.output <;> simp
  simp only [hdirectory]

/-- A project with two templates of the same name in different directories, and one output
directory. -/
def Project.twins : Project where
  name := "twins"
  version := ""
  entries := [.ofText "./a/x.json", .ofText "./b/x.json"]
  output := some (.ofText "./dist")
  directory := .ofText "."
  dialect := none
  normalize := true

def Disk.twins : Disk where
  entries :=
    [(place ["w"], .directory), (place ["w", "a"], .directory), (place ["w", "b"], .directory),
      (place ["w", "tplc.toml"], .file ("[project]\nname = \"twins\"\noutput = \"dist\"\n" ++
        "entry = [\"a/x.json\", \"b/x.json\"]\n").toUTF8),
      (place ["w", "a", "x.json"], .file
        "\x7b\"kind\":\"html\",\"children\":[\x7b\"type\":\"text\",\"value\":\"a\"\x7d]\x7d".toUTF8),
      (place ["w", "b", "x.json"], .file
        "\x7b\"kind\":\"html\",\"children\":[\x7b\"type\":\"text\",\"value\":\"b\"\x7d]\x7d".toUTF8)]
  workingDirectory := place ["w"]

/-- Building the twins succeeds, although the second artifact has taken the place of the first. -/
theorem outputs_apart_twins :
    Disk.twins.Resolves (.ofText ".") ⟨Project.twins.entries, some Project.twins⟩ ∧
      (Disk.twins.run (build ⟨.ofText ".", none, false, false⟩)).1.code = 0 ∧
      (Path.ofText "./a/x.json").components ≠ (Path.ofText "./b/x.json").components ∧
      (Disk.twins.artifact? Project.twins.options (.ofText "./a/x.json")).map (·.encode.toText) ≠
        (Disk.twins.artifact? Project.twins.options (.ofText "./b/x.json")).map (·.encode.toText) ∧
      ∃ artifact, Disk.twins.artifact? Project.twins.options (.ofText "./b/x.json") = some artifact ∧
        (Disk.twins.run (build ⟨.ofText ".", none, false, false⟩)).2.at?
            (Disk.twins.placeOf (Project.twins.outputPath (.ofText "./a/x.json"))) =
          some (.file artifact.encode.toText.toUTF8) := by
  have hinputs : Disk.twins.Resolves (.ofText ".") ⟨Project.twins.entries, some Project.twins⟩ := by
    unfold Disk.Resolves
    decide +kernel
  have hcode : (Disk.twins.run (build ⟨.ofText ".", none, false, false⟩)).1.code = 0 := by
    decide +kernel
  have hshares : Project.twins.SharesFile Disk.twins (.ofText "./a/x.json")
      (.ofText "./b/x.json") := by
    unfold Project.SharesFile
    decide +kernel
  obtain ⟨artifact, hartifact, hfile⟩ := (outputs_apart_iff Project.twins).2
    ⟨.ofText ".", none, false, false⟩ Disk.twins hinputs rfl hcode [.ofText "./a/x.json"] []
    (.ofText "./b/x.json") rfl (by simp)
  exact ⟨hinputs, hcode, by decide +kernel, by decide +kernel, artifact, hartifact,
    hfile _ hshares⟩

end DomTemplate

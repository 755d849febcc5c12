import Mathlib
import DomTemplate.Proofs.Files.Parents
import DomTemplate.Proofs.Files.ReadBack
import DomTemplate.Proofs.OutputPaths

/-!
# Templates and their own artifacts

The name of an artifact file is never that of its template: if it were, the stem of the template
would be a text, and then the stem of the artifact file is longer.  A file that can be read is found
under the name at the end of its path, so an artifact never takes the place of the template it was
compiled from.
-/

namespace DomTemplate

namespace Path

/-! ## The name at the end of a path -/

theorem getLast?_filter_concat (front : List (List UInt8)) {last : List UInt8}
    (h : isIdle last = false) : ((front ++ [last]).filter (!isIdle ·)).getLast? = some last := by
  rw [List.filter_append, List.filter_cons_of_pos (by simp [h]), List.filter_nil,
    List.getLast?_concat]

theorem getLast?_parts (bytes : List UInt8) :
    (parts (split bytes).2).getLast? =
      ((Text.pieces slash bytes).filter (!isIdle ·)).getLast? := by
  rw [← filter_pieces_split, ← filter_trimParts, ← parts]
  rcases List.eq_nil_or_concat (parts (split bytes).2) with hnil | ⟨init, last, hlast⟩
  · rw [hnil]
    rfl
  · rw [List.concat_eq_append] at hlast
    rw [hlast, getLast?_filter_concat init (isIdle_of_trimParts_eq hlast), List.getLast?_concat]

/-- The file name is the last piece that counts, unless that leads up. -/
theorem fileName?_eq_some_iff {path : Path} {name : List UInt8} :
    path.fileName? = some name ↔
      ((Text.pieces slash path.bytes).filter (!isIdle ·)).getLast? = some name ∧
        name ≠ [dot, dot] := by
  rw [← getLast?_parts, fileName?]
  cases (parts (split path.bytes).2).getLast? with
  | none => simp
  | some last =>
      by_cases hup : last = [dot, dot]
      · subst hup
        simp [eq_comm]
      · rw [Option.some.injEq]
        constructor
        · intro h
          simp only [hup, if_false, Option.some.injEq] at h
          subst h
          simp [hup]
        · rintro ⟨rfl, -⟩
          simp [hup]

theorem fileName?_join (base : Path) {name : List UInt8} (h : IsName name) :
    (base.join ⟨name⟩).fileName? = some name := by
  obtain ⟨front, -, -, -, hpieces, -, -⟩ := exists_pieces_join base h
  rw [fileName?_eq_some_iff, hpieces, getLast?_filter_concat front h.notIdle]
  exact ⟨rfl, h.notUp⟩

/-! ## Stems -/

/-- A name is split where a dot stands behind something and no other dot behind it. -/
theorem splitName_append {stem extension : List UInt8} (hstem : stem ≠ [])
    (hdot : dot ∉ extension) : splitName (stem ++ dot :: extension) = (stem, some extension) := by
  have hsplit : Text.splitOnce dot (stem ++ dot :: extension).reverse =
      some (extension.reverse, stem.reverse) := by
    rw [List.reverse_append, List.reverse_cons, List.append_assoc, List.singleton_append]
    exact Text.splitOnce_append_of_not_mem (by simpa using hdot) stem.reverse
  unfold splitName
  rw [hsplit]
  split
  · next h => exact absurd h (by simp)
  · next h => exact absurd h (by simp [hstem])
  · next h =>
    obtain ⟨rfl, rfl⟩ := Prod.mk.inj (Option.some.inj h)
    rw [List.reverse_reverse, List.reverse_reverse]

end Path

theorem bytes_artifactFileName {input : Path} {stem : List UInt8}
    (h : input.fileStem? = some stem) :
    Text.bytes (artifactFileName input) =
      Text.bytes (Text.lossy stem ++ ".tpl") ++ Path.dot :: Text.bytes "json" := by
  rw [artifactFileName, h, Option.map_some, Option.getD_some, Text.bytes_append, Text.bytes_append,
    List.append_assoc]
  rfl

/-- The name of an artifact file is not that of its template. -/
theorem bytes_artifactFileName_ne {input : Path} {name : List UInt8}
    (h : input.fileName? = some name) : Text.bytes (artifactFileName input) ≠ name := by
  intro hsame
  have hstem : input.fileStem? = some (Path.splitName name).1 := by
    rw [Path.fileStem?, h, Option.map_some]
  -- So the stem of the template would be the stem of the artifact file.
  have hlonger : Path.splitName name =
      (Text.bytes (Text.lossy (Path.splitName name).1 ++ ".tpl"), some (Text.bytes "json")) := by
    conv_lhs => rw [← hsame, bytes_artifactFileName hstem]
    refine Path.splitName_append ?_ (by decide +kernel)
    rw [Text.bytes_append]
    exact List.append_ne_nil_of_right_ne_nil _ (by decide +kernel)
  exact Text.bytes_lossy_append_ne (by decide) _ (congrArg Prod.fst hlonger).symm

/-- The stem of a template is kept in the name of its artifact file if and only if it is a text. -/
theorem bytes_artifactFileName_eq_iff {input : Path} {stem : List UInt8}
    (h : input.fileStem? = some stem) :
    Text.bytes (artifactFileName input) = stem ++ Text.bytes ".tpl.json" ↔
      ∃ text, stem = Text.bytes text := by
  rw [artifactFileName, h, Option.map_some, Option.getD_some, Text.bytes_append,
    List.append_cancel_right_eq]
  constructor
  · exact fun hkept => ⟨Text.lossy stem, hkept.symm⟩
  · rintro ⟨text, rfl⟩
    rw [Text.lossy_bytes]

theorem Project.fileName?_outputPath (project : Project) (input : Path) :
    (project.outputPath input).fileName? = some (Text.bytes (artifactFileName input)) := by
  rw [outputPath_eq, Path.fileName?_join _ (isName_artifactFileName input)]

/-- The path of an artifact ends in its name wherever it goes, unless a path is asked for. -/
theorem BuildRequest.fileName?_target {request : BuildRequest} (houtput : request.output = none)
    (project : Option Project) (input : Path) :
    (request.target project input).fileName? = some (Text.bytes (artifactFileName input)) := by
  unfold target
  rw [houtput]
  cases project with
  | some project => exact project.fileName?_outputPath input
  | none => exact Path.fileName?_join _ (isName_artifactFileName input)

/-! ## The place of a file -/

namespace Disk

/-- Everything on the disk lies in a directory. -/
def IsTree (disk : Disk) : Prop :=
  ∀ found ∈ disk.entries, disk.isDirectoryAt found.1.pop = true

instance (disk : Disk) : Decidable disk.IsTree :=
  inferInstanceAs (Decidable (∀ found ∈ disk.entries, disk.isDirectoryAt found.1.pop = true))

theorem IsTree.isDirectoryAt_pop {disk : Disk} (htree : disk.IsTree) {place : Location}
    (h : disk.isDirectoryAt place = true) : disk.isDirectoryAt place.pop = true := by
  by_cases hempty : place = #[]
  · subst hempty
    rfl
  · unfold isDirectoryAt at h
    split at h
    · next hfound =>
      rw [at?, if_neg (by simpa using hempty)] at hfound
      obtain ⟨before, behind, hentries, -⟩ := List.lookup_eq_some_iff.mp hfound
      exact htree (place, .directory) (by simp [hentries])
    · exact absurd h (by simp)

/-- What a path leads to is a directory, or the path ends in its name. -/
theorem isDirectoryAt_or_fileName {disk : Disk} (htree : disk.IsTree) {path : Path}
    {place : Location} (h : disk.resolve path = .ok place) :
    disk.isDirectoryAt place = true ∨ ∃ name, path.fileName? = some name := by
  obtain ⟨pieces, hpieces, h⟩ := bind_eq_ok_iff.mp h
  obtain rfl := parts_eq hpieces
  -- Only the last step counts.
  obtain ⟨front, last, hlast⟩ : ∃ front last, Text.pieces Path.slash path.bytes = front ++ [last] :=
    ⟨_, _, (List.dropLast_concat_getLast (Text.pieces_ne_nil Path.slash path.bytes)).symm⟩
  rw [hlast, List.foldlM_append] at h
  obtain ⟨above, -, h⟩ := bind_eq_ok_iff.mp h
  obtain ⟨next, hnext, h⟩ := bind_eq_ok_iff.mp h
  obtain rfl := Except.ok.inj h
  have habove := isDirectoryAt_of_step hnext
  have hplace := step_eq_follow hnext
  unfold follow at hplace
  split_ifs at hplace with hidle hup
  · exact .inl (hplace ▸ habove)
  · exact .inl (hplace ▸ htree.isDirectoryAt_pop habove)
  · refine .inr ⟨last, Path.fileName?_eq_some_iff.mpr ?_⟩
    rw [hlast, Path.getLast?_filter_concat front (by simpa using hidle)]
    exact ⟨rfl, hup⟩

theorem foldl_follow_filter (pieces : List (List UInt8)) (place : Location) :
    (pieces.filter (!Path.isIdle ·)).foldl follow place = pieces.foldl follow place := by
  induction pieces generalizing place with
  | nil => rfl
  | cons piece pieces ih =>
      by_cases hidle : Path.isIdle piece = true
      · rw [List.filter_cons_of_neg (by simp [hidle]), ih, List.foldl_cons, follow, if_pos hidle]
      · rw [List.filter_cons_of_pos (by simp [hidle]), List.foldl_cons, ih, List.foldl_cons]

/-- The name at the end of a path is the last one on the way to its place. -/
theorem back?_placeOf {path : Path} {name : List UInt8} (h : path.fileName? = some name)
    (disk : Disk) : (disk.placeOf path).back? = some name := by
  obtain ⟨hlast, hup⟩ := Path.fileName?_eq_some_iff.mp h
  obtain ⟨front, hfront⟩ := List.getLast?_eq_some_iff.mp hlast
  have hidle : Path.isIdle name = false := by
    have hmem := List.mem_of_getLast? hlast
    simpa using (List.mem_filter.mp hmem).2
  rw [placeOf, ← foldl_follow_filter, hfront, List.foldl_append]
  simp [follow, hidle, hup]

/-- A file that can be read has the name that its path ends in. -/
theorem exists_fileName_of_readText {disk : Disk} (htree : disk.IsTree) {path : Path}
    {text : String} (h : disk.readText path = .ok text) : ∃ name, path.fileName? = some name := by
  obtain ⟨place, hplace, h⟩ := bind_eq_ok_iff.mp h
  refine (isDirectoryAt_or_fileName htree hplace).resolve_left fun hdirectory => ?_
  unfold isDirectoryAt at hdirectory
  split at hdirectory
  · next hfound =>
    rw [hfound] at h
    exact absurd h (by simp)
  · exact absurd hdirectory (by simp)

theorem exists_readText_of_artifact {disk : Disk} {options : Options} {entry : Path}
    {artifact : Artifact} (h : disk.artifact? options entry = some artifact) :
    ∃ source, disk.readText entry = .ok source := by
  unfold artifact? at h
  split at h
  · next source hsource => exact ⟨source, hsource⟩
  · exact absurd h (by simp)

theorem placeOf_ne_of_fileName {disk : Disk} {first second : Path}
    {firstName secondName : List UInt8} (hfirst : first.fileName? = some firstName)
    (hsecond : second.fileName? = some secondName) (hne : firstName ≠ secondName) :
    disk.placeOf first ≠ disk.placeOf second := by
  intro hsame
  have hback := back?_placeOf hfirst disk
  rw [hsame, back?_placeOf hsecond disk] at hback
  exact hne (Option.some.inj hback).symm

end Disk

theorem placeOf_target_ne {request : BuildRequest} (houtput : request.output = none)
    (project : Option Project) {disk : Disk} (htree : disk.IsTree) {entry : Path} {text : String}
    (hread : disk.readText entry = .ok text) :
    disk.placeOf (request.target project entry) ≠ disk.placeOf entry := by
  obtain ⟨name, hname⟩ := Disk.exists_fileName_of_readText htree hread
  exact Disk.placeOf_ne_of_fileName (request.fileName?_target houtput project entry) hname
    (bytes_artifactFileName_ne hname)

/-! ## Building -/

/-- A build without a path for its output leaves a file alone, or puts the artifact of another one
in its place. -/
theorem at?_placeOf_build {request : BuildRequest} (houtput : request.output = none) {disk : Disk}
    (htree : disk.IsTree) {path : Path} {text : String} (hread : disk.readText path = .ok text) :
    (disk.run (build request)).2.at? (disk.placeOf path) = disk.at? (disk.placeOf path) ∨
      ∃ inputs, disk.Resolves request.input inputs ∧ ∃ entry ∈ inputs.entries, ∃ artifact,
        disk.artifact? (inputs.options request.svg request.noNormalize) entry = some artifact ∧
          disk.placeOf entry ≠ disk.placeOf path ∧
          (disk.run (build request)).2.at? (disk.placeOf path) =
            some (.file artifact.encode.toText.toUTF8) := by
  cases hinput : (disk.run (resolveInput request.input)).1 with
  | error message =>
      refine .inl ?_
      rw [build, Disk.run_bind, OnlyReads.resolveInput, hinput]
      rfl
  | ok inputs =>
      obtain ⟨stored, hstored, -⟩ := run_build hinput (.inl houtput)
      rcases changed_of_storesPart hstored (disk.placeOf path) with hsame | ⟨hnone, -⟩ |
        ⟨entry, hentry, artifact, hartifact, hplace, hfile⟩
      · exact .inl hsame
      · -- No directory is made where there is a file.
        obtain ⟨place, hplace, hread⟩ := bind_eq_ok_iff.mp hread
        rw [Disk.resolve_eq_placeOf hplace, hnone] at hread
        exact absurd hread (by simp)
      · refine .inr ⟨inputs, hinput, entry, hentry, artifact, hartifact, ?_, hfile⟩
        obtain ⟨source, hsource⟩ := Disk.exists_readText_of_artifact hartifact
        rw [← hplace]
        exact (placeOf_target_ne houtput inputs.project htree hsource).symm

/-- The name of an artifact file is made from the stem of its template, which is kept as it is if and
only if it is a text, and is never the name of the template.  So a build without a path for its
output stores no artifact where it read the template, and a file that it replaces holds the artifact
of another one. -/
theorem artifact_never_replaces_its_template :
    (∀ (project : Project) (input : Path),
      (project.outputPath input).fileName? =
          some (Text.bytes ((input.fileStem?.map Text.lossy).getD "template" ++ ".tpl.json")) ∧
        (∀ stem, input.fileStem? = some stem →
          ((project.outputPath input).fileName? = some (stem ++ Text.bytes ".tpl.json") ↔
            ∃ text, stem = Text.bytes text)) ∧
        (project.outputPath input).fileName? ≠ input.fileName?) ∧
    ∀ (request : BuildRequest) (disk : Disk), request.output = none → disk.IsTree →
      ∀ (path : Path) (text : String), disk.readText path = .ok text →
        (∀ project, disk.placeOf (request.target project path) ≠ disk.placeOf path) ∧
        ((disk.run (build request)).2.at? (disk.placeOf path) = disk.at? (disk.placeOf path) ∨
          ∃ inputs, disk.Resolves request.input inputs ∧ ∃ entry ∈ inputs.entries, ∃ artifact,
            disk.artifact? (inputs.options request.svg request.noNormalize) entry =
                some artifact ∧
              disk.placeOf entry ≠ disk.placeOf path ∧
              (disk.run (build request)).2.at? (disk.placeOf path) =
                some (.file artifact.encode.toText.toUTF8)) := by
  refine ⟨fun project input => ⟨project.fileName?_outputPath input, fun stem hstem => ?_, ?_⟩,
    fun request disk houtput htree path text hread =>
      ⟨fun project => placeOf_target_ne houtput project htree hread,
        at?_placeOf_build houtput htree hread⟩⟩
  · rw [project.fileName?_outputPath, Option.some.injEq]
    exact bytes_artifactFileName_eq_iff hstem
  · rw [project.fileName?_outputPath]
    cases hname : input.fileName? with
    | none => simp
    | some name => simpa using bytes_artifactFileName_ne hname

/-- The artifact of one card takes the place of another, and that of the other one would not, even
if it were to go where the templates are. -/
theorem artifact_never_replaces_cards :
    Disk.cards.IsTree ∧
      (∃ text, Disk.cards.readText (.ofText "./card.tpl.json") = .ok text) ∧
      (Disk.cards.placeOf (BuildRequest.target ⟨.ofText ".", none, false, false⟩
          (some { Project.cards with output := some (.ofText "./") }) (.ofText "./card.tpl.json")) ≠
        Disk.cards.placeOf (.ofText "./card.tpl.json")) ∧
      ∃ inputs, Disk.cards.Resolves (.ofText ".") inputs ∧ ∃ entry ∈ inputs.entries, ∃ artifact,
        Disk.cards.artifact? (inputs.options false false) entry = some artifact ∧
          Disk.cards.placeOf entry ≠ Disk.cards.placeOf (.ofText "./card.tpl.json") ∧
          (Disk.cards.run (build ⟨.ofText ".", none, false, false⟩)).2.at?
              (Disk.cards.placeOf (.ofText "./card.tpl.json")) =
            some (.file artifact.encode.toText.toUTF8) := by
  have htree : Disk.cards.IsTree := by decide +kernel
  have hread : Disk.cards.readText (.ofText "./card.tpl.json") =
      .ok "\x7b\"kind\":\"svg\",\"children\":[]\x7d" := by decide +kernel
  obtain ⟨hplaces, hkept | hreplaced⟩ := artifact_never_replaces_its_template.2
    ⟨.ofText ".", none, false, false⟩ Disk.cards rfl htree _ _ hread
  · -- What is there now is longer than what was there.
    have hlength := congrArg (Option.map fun
      | Entry.file content => content.size
      | Entry.directory => 0) hkept
    exact absurd hlength (by decide +kernel)
  · exact ⟨htree, ⟨_, hread⟩, hplaces _, hreplaced⟩

/-- A name that starts with a byte which is no text: the artifact file has another stem. -/
theorem broken_stem_is_replaced :
    (Path.mk (0xff :: Text.bytes ".json")).fileStem? = some [0xff] ∧
      (Project.cards.outputPath ⟨0xff :: Text.bytes ".json"⟩).fileName? =
        some ([0xef, 0xbf, 0xbd] ++ Text.bytes ".tpl.json") ∧
      (Project.cards.outputPath ⟨0xff :: Text.bytes ".json"⟩).fileName? ≠
        some ([0xff] ++ Text.bytes ".tpl.json") := by
  decide +kernel

end DomTemplate

import Mathlib
import DomTemplate.Proofs.Files.ReadBack
import DomTemplate.Proofs.Files.Reads
import DomTemplate.Proofs.Texts

/-!
# What a project file means

A project file is read line by line into settings that later lines overwrite.  What comes of it can
be told without the reading.  An assignment stands in the section of the last heading above it.  The
first assignment that makes no sense is the reason to refuse the file, whatever follows it.  In a
file without one, each key has the value of its last assignment, or its default.
-/

namespace DomTemplate

/-! ## The assignments of a text -/

/-- The name in a heading, which is a line between square brackets. -/
def headingName? (line : List Char) : Option (List Char) :=
  match Text.trim line with
  | '[' :: rest => if rest.getLast? = some ']' then some (Text.trim rest.dropLast) else none
  | _ => none

/-- Key and value of a line that has an equality sign, and is neither a comment nor a heading.  The
first sign counts. -/
def keyAndValue? (line : List Char) : Option (List Char × List Char) :=
  if (Text.trim line).head? = some '#' ∨ (headingName? line).isSome ∨ '=' ∉ Text.trim line then none
  else some (Text.unquote (Text.trim ((Text.trim line).takeWhile (· ≠ '='))),
    Text.trim ((Text.trim line).dropWhile (· ≠ '=')).tail)

/-- The section of what follows some lines: the last heading among them names it. -/
def sectionAfter (lines : List (List Char)) : List Char :=
  (lines.reverse.findSome? headingName?).getD []

/-- The assignment of a line, which is given with its position among all lines. -/
def assignmentAt? (lines : List (List Char)) (line : List Char × Nat) : Option Assignment :=
  (keyAndValue? line.1).map fun pair => ⟨sectionAfter (lines.take line.2), pair.1, pair.2⟩

/-- The assignments of lines, each with the section in which its line stands. -/
def declared (lines : List (List Char)) : List Assignment :=
  lines.zipIdx.filterMap (assignmentAt? lines)

theorem headingName?_eq (line : List Char) :
    headingName? line =
      if (Text.trim line).head? = some '[' ∧ (Text.trim line).getLast? = some ']' then
        some (Text.trim (Text.trim line).tail.dropLast)
      else none := by
  unfold headingName?
  split
  · next rest hrest =>
    -- A single bracket is no heading: it cannot close what it opens.
    have hlast : ('[' :: rest).getLast? = some ']' ↔ rest.getLast? = some ']' := by
      rw [List.getLast?_cons]
      cases rest.getLast? <;> simp
    simp [hrest, hlast]
  · next hother =>
    rw [if_neg]
    rintro ⟨hhead, -⟩
    obtain ⟨rest, hrest⟩ := List.head?_eq_some_iff.mp hhead
    exact hother rest hrest

theorem SettingsLine.ofText_eq (line : List Char) :
    SettingsLine.ofText line =
      match headingName? line, keyAndValue? line with
      | some name, _ => .heading name
      | none, some (key, value) => .assignment key value
      | none, none => .other := by
  unfold SettingsLine.ofText keyAndValue?
  rw [headingName?_eq]
  generalize Text.trim line = line
  by_cases hcomment : line.head? = some '#'
  · simp [hcomment]
  · by_cases hheading : line.head? = some '[' ∧ line.getLast? = some ']'
    · have hne : line ≠ [] := by
        rintro rfl
        simp at hheading
      simp [hne, hheading]
    · by_cases hsign : '=' ∈ line
      · have hne : line ≠ [] := List.ne_nil_of_mem hsign
        simp [hne, hcomment, hheading, hsign, Text.splitOnce_eq]
      · simp [hcomment, hheading, hsign, Text.splitOnce_eq]

theorem sectionAfter_concat (lines : List (List Char)) (line : List Char) :
    sectionAfter (lines ++ [line]) = (headingName? line).getD (sectionAfter lines) := by
  unfold sectionAfter
  rw [List.reverse_append]
  cases hname : headingName? line <;> simp [hname]

/-- Reading the lines behind others gives their assignments, with the right sections. -/
theorem assignments_sectionAfter (before lines : List (List Char)) :
    assignments (sectionAfter before) lines =
      (lines.zipIdx before.length).filterMap (assignmentAt? (before ++ lines)) := by
  induction lines generalizing before with
  | nil => rfl
  | cons line lines ih =>
      have hrest := ih (before ++ [line])
      rw [sectionAfter_concat, List.length_append, List.length_singleton, List.append_assoc,
        List.singleton_append] at hrest
      have hline : assignmentAt? (before ++ line :: lines) (line, before.length) =
          (keyAndValue? line).map fun pair => ⟨sectionAfter before, pair.1, pair.2⟩ := by
        rw [assignmentAt?, List.take_left]
      rw [assignments, SettingsLine.ofText_eq, List.zipIdx_cons, List.filterMap_cons, hline,
        ← hrest]
      cases hname : headingName? line with
      | none => cases keyAndValue? line <;> rfl
      | some name =>
          have hpair : keyAndValue? line = none := by simp [keyAndValue?, hname]
          rw [hpair]
          rfl

theorem assignments_eq_declared (lines : List (List Char)) :
    assignments [] lines = declared lines :=
  assignments_sectionAfter [] lines

/-! ## The last value of a key -/

/-- The value that an assignment gives to a key of a section. -/
def Assignment.valueFor? (heading key : String) (a : Assignment) : Option (List Char) :=
  if String.ofList a.heading = heading ∧ String.ofList a.key = key then some a.value else none

/-- The value of the last assignment to a key of a section. -/
def lastValue? (all : List Assignment) (heading key : String) : Option (List Char) :=
  all.reverse.findSome? (Assignment.valueFor? heading key)

theorem lastValue?_cons (a : Assignment) (all : List Assignment) (heading key : String) :
    lastValue? (a :: all) heading key =
      (lastValue? all heading key).or (a.valueFor? heading key) := by
  simp [lastValue?, List.findSome?_append]

/-- What is wrong with an assignment, wherever it stands: the kind of templates has to be known, and
normalisation is on or off. -/
def Assignment.fault? (a : Assignment) : Option SettingsError :=
  match a.valueFor? "project" "kind", a.valueFor? "compile" "normalize" with
  | some value, _ =>
    if (Dialect.ofName? (Settings.textValue value)).isSome then none
    else some (.unknownKind (Settings.textValue value))
  | none, some value =>
    if String.ofList value = "true" ∨ String.ofList value = "false" then none
    else some (.notBoolean "normalize" (String.ofList value))
  | none, none => none

namespace Settings

/-- The entries that a value stands for: those of a list in square brackets, or a single one. -/
def entryTexts (value : List Char) : List String :=
  if value.head? = some '[' then (readEntries value).map String.ofList else [textValue value]

/-- Settings with new values for the keys that have one. -/
def updated (s : Settings) (value? : String → String → Option (List Char)) : Settings where
  name := (value? "project" "name").elim s.name textValue
  version := (value? "project" "version").elim s.version textValue
  entries := (value? "project" "entry").elim s.entries entryTexts
  output := (value? "project" "output").elim s.output fun value => some (textValue value)
  dialect := (value? "project" "kind").elim s.dialect fun value => Dialect.ofName? (textValue value)
  normalize := (value? "compile" "normalize").elim s.normalize (String.ofList · = "true")

theorem elim_elim {α β : Type} (first second : Option α) (b : β) (f : α → β) :
    second.elim (first.elim b f) f = (second.or first).elim b f := by
  cases second <;> rfl

theorem updated_updated (s : Settings) (first second : String → String → Option (List Char)) :
    (s.updated first).updated second =
      s.updated fun heading key => (second heading key).or (first heading key) := by
  simp only [updated, elim_elim]

/-- One assignment gives its key the value, or it is refused. -/
theorem assign_eq (s : Settings) (a : Assignment) :
    s.assign a = match a.fault? with
      | some error => .error error
      | none => .ok (s.updated fun heading key => a.valueFor? heading key) := by
  unfold assign
  split
  · next hheading =>
    unfold assignProject
    split
    · next hkey =>
      simp [Assignment.fault?, Assignment.valueFor?, hheading, hkey, updated, entryTexts]
    · next hkey => simp [Assignment.fault?, Assignment.valueFor?, hheading, hkey, updated]
    · next hkey => simp [Assignment.fault?, Assignment.valueFor?, hheading, hkey, updated]
    · next hkey => simp [Assignment.fault?, Assignment.valueFor?, hheading, hkey, updated]
    · next hkey =>
      split <;> next hname =>
        simp [Assignment.fault?, Assignment.valueFor?, hheading, hkey, updated, hname]
    · simp_all [Assignment.fault?, Assignment.valueFor?, updated]
  · next hheading =>
    unfold assignCompile
    split
    · next hkey =>
      split <;> simp_all [Assignment.fault?, Assignment.valueFor?, updated]
    · simp_all [Assignment.fault?, Assignment.valueFor?, updated]
  · simp_all [Assignment.fault?, Assignment.valueFor?, updated]

theorem foldlM_assign (s : Settings) (all : List Assignment) :
    all.foldlM assign s = match all.findSome? Assignment.fault? with
      | some error => .error error
      | none => .ok (s.updated (lastValue? all)) := by
  induction all generalizing s with
  | nil => rfl
  | cons a all ih =>
      rw [List.foldlM_cons, assign_eq, List.findSome?_cons]
      cases a.fault? with
      | some error => rfl
      | none =>
          rw [ok_bind, ih, updated_updated]
          simp only [← lastValue?_cons]

/-- The entries that a file has in the end.  It never has none. -/
def entriesOf (value? : Option (List Char)) : List String :=
  if value?.elim [] entryTexts = [] then ["template.json"] else value?.elim [] entryTexts

/-- The settings with given values, and with defaults where there is no value. -/
def ofValues (value? : String → String → Option (List Char)) : Settings :=
  { ({} : Settings).updated value? with entries := entriesOf (value? "project" "entry") }

theorem ofValues_eq (value? : String → String → Option (List Char)) :
    ofValues value? =
      if (({} : Settings).updated value?).entries.isEmpty then
        { ({} : Settings).updated value? with entries := ["template.json"] }
      else ({} : Settings).updated value? := by
  have hentries : (({} : Settings).updated value?).entries =
      (value? "project" "entry").elim [] entryTexts := rfl
  rw [ofValues, entriesOf, ← hentries]
  by_cases hnone : (({} : Settings).updated value?).entries = []
  · rw [if_pos hnone, if_pos (List.isEmpty_iff.mpr hnone)]
  · rw [if_neg hnone, if_neg (mt List.isEmpty_iff.mp hnone)]

theorem read_of_fault {text : String} {error : SettingsError}
    (h : (declared (Text.lines text.toList)).findSome? Assignment.fault? = some error) :
    read text = .error error := by
  rw [read, assignments_eq_declared, foldlM_assign, h]
  rfl

theorem read_of_no_fault {text : String}
    (h : (declared (Text.lines text.toList)).findSome? Assignment.fault? = none) :
    read text =
      if (ofValues (lastValue? (declared (Text.lines text.toList)))).name = "" then
        .error .missingName
      else .ok (ofValues (lastValue? (declared (Text.lines text.toList)))) := by
  rw [read, assignments_eq_declared, foldlM_assign, h]
  generalize lastValue? (declared (Text.lines text.toList)) = value?
  have hname : (ofValues value?).name = (({} : Settings).updated value?).name := rfl
  rw [hname, ofValues_eq, apply_ite Except.ok]
  rfl

end Settings

/-- The project with given values, where entries and output lie in its directory. -/
theorem Project.ofSettings_ofValues (directory : Path)
    (value? : String → String → Option (List Char)) :
    Project.ofSettings directory (Settings.ofValues value?) = {
      name := (value? "project" "name").elim "" Settings.textValue
      version := (value? "project" "version").elim "" Settings.textValue
      entries := (Settings.entriesOf (value? "project" "entry")).map (directory.join <| .ofText ·)
      output := (value? "project" "output").map (directory.join <| .ofText <| Settings.textValue ·)
      directory
      dialect := (value? "project" "kind").bind (Dialect.ofName? <| Settings.textValue ·)
      normalize := (value? "compile" "normalize").elim true (String.ofList · = "true") } := by
  have houtput : (Settings.ofValues value?).output =
      (value? "project" "output").map Settings.textValue := by
    cases h : value? "project" "output" <;> simp [Settings.ofValues, Settings.updated, h]
  have hdialect : (Settings.ofValues value?).dialect =
      (value? "project" "kind").bind (Dialect.ofName? <| Settings.textValue ·) := by
    cases h : value? "project" "kind" <;> simp [Settings.ofValues, Settings.updated, h]
  rw [Project.ofSettings, houtput, hdialect, Option.map_map]
  rfl

theorem Project.run_load {disk : Disk} {file : Path} {text : String}
    (hread : disk.readText file = .ok text) :
    (disk.run (Project.load file)).1 = Project.ofText file text := by
  have hrun : disk.run (FileAccess.readText file) = (disk.readText file, disk) := rfl
  simp only [Project.load, Disk.run_bind, hrun, hread]
  rfl

/-- A project file is refused for the first assignment that makes no sense, even if its key is
assigned again.  Otherwise the last assignments tell what project it is, if they name one. -/
theorem project_file_means_last_assignments {disk : Disk} {file : Path} {text : String}
    (hread : disk.readText file = .ok text) :
    let all := declared (Text.lines text.toList)
    let value? := lastValue? all
    let directory := file.parent?.getD (.ofText ".")
    let result := (disk.run (Project.load file)).1
    (∀ before bad after error, all = before ++ bad :: after →
      (∀ earlier ∈ before, earlier.fault? = none) → bad.fault? = some error →
        result = .error error.toDiagnostic) ∧
    ((∀ a ∈ all, a.fault? = none) →
      (result = .error SettingsError.missingName.toDiagnostic ↔
        value? "project" "name" = none ∨
          ∃ value, value? "project" "name" = some value ∧ Text.unquote value = []) ∧
      ∀ name, value? "project" "name" = some name → Text.unquote name ≠ [] →
        result = .ok {
          name := Settings.textValue name
          version := (value? "project" "version").elim "" Settings.textValue
          entries := (Settings.entriesOf (value? "project" "entry")).map (directory.join <| .ofText ·)
          output := (value? "project" "output").map (directory.join <| .ofText <| Settings.textValue ·)
          directory
          dialect := (value? "project" "kind").bind (Dialect.ofName? <| Settings.textValue ·)
          normalize := (value? "compile" "normalize").elim true (String.ofList · = "true") }) := by
  intro all value? directory result
  have hresult : result = Project.ofText file text := Project.run_load hread
  refine ⟨fun before bad after error hall hbefore hbad => ?_, fun hfine => ?_⟩
  · have hfault : all.findSome? Assignment.fault? = some error :=
      List.findSome?_eq_some_iff.mpr ⟨before, bad, after, hall, hbad, hbefore⟩
    rw [hresult, Project.ofText, Settings.read_of_fault hfault]
  · have hsettings : Settings.read text =
        if (Settings.ofValues value?).name = "" then .error .missingName
        else .ok (Settings.ofValues value?) :=
      Settings.read_of_no_fault (List.findSome?_eq_none_iff.mpr hfine)
    have hname : (Settings.ofValues value?).name =
        (value? "project" "name").elim "" Settings.textValue := rfl
    rw [hresult, Project.ofText, hsettings, hname]
    cases hvalue : value? "project" "name" with
    | none => simp
    | some value =>
        rw [Option.elim_some]
        by_cases hempty : Text.unquote value = []
        · simp [Settings.textValue, hempty]
        · have htext : Settings.textValue value ≠ "" := by
            simpa [Settings.textValue] using hempty
          simp only [if_neg htext, Project.ofSettings_ofValues, hvalue]
          simp [hempty, directory]

/-- A file with a section that is opened twice, a key before any section, and a line that only looks
like a heading. -/
def panelsFile : String :=
  "# panels\nname = lost\n[project]\nname = \"old\"\nentry = [\"a.json\", \"b.json\"]\n" ++
  "kind = html\n[compile]\nnormalize = false\n[ project ]\n\"name\" = \"panels\"\n" ++
  "kind = \"svg\"\n[compile] on\nnormalize = maybe\n"

/-- A file whose first fault is mended further down, behind another fault. -/
def mendedFile : String :=
  "[compile]\nnormalize = yes\n[project]\nname = late\nkind = mathml\n[compile]\nnormalize = true\n"

def Disk.panels : Disk where
  entries :=
    [(place ["w"], .directory), (place ["w", "ui"], .directory),
      (place ["w", "ui", "tplc.toml"], .file panelsFile.toUTF8),
      (place ["w", "tplc.toml"], .file mendedFile.toUTF8)]
  workingDirectory := place ["w"]

theorem panels_file_means_last_assignments :
    (Disk.panels.run (Project.load (.ofText "ui/tplc.toml"))).1 = .ok {
      name := "panels"
      version := ""
      entries := [.ofText "ui/a.json", .ofText "ui/b.json"]
      output := none
      directory := .ofText "ui"
      dialect := some .svg
      normalize := false } ∧
    (Disk.panels.run (Project.load (.ofText "tplc.toml"))).1 =
      .error (SettingsError.notBoolean "normalize" "yes").toDiagnostic := by
  have hfiles :
      Disk.panels.resolve (.ofText "ui/tplc.toml") = .ok (Disk.place ["w", "ui", "tplc.toml"]) ∧
        Disk.panels.resolve (.ofText "tplc.toml") = .ok (Disk.place ["w", "tplc.toml"]) := by
    decide +kernel
  have hpanels : Disk.panels.readText (.ofText "ui/tplc.toml") = .ok panelsFile :=
    Disk.readText_of_file hfiles.1 (by rfl)
  have hmended : Disk.panels.readText (.ofText "tplc.toml") = .ok mendedFile :=
    Disk.readText_of_file hfiles.2 (by rfl)
  have hdeclared : declared (Text.lines panelsFile.toList) =
      [⟨[], "name".toList, "lost".toList⟩,
        ⟨"project".toList, "name".toList, "\"old\"".toList⟩,
        ⟨"project".toList, "entry".toList, "[\"a.json\", \"b.json\"]".toList⟩,
        ⟨"project".toList, "kind".toList, "html".toList⟩,
        ⟨"compile".toList, "normalize".toList, "false".toList⟩,
        ⟨"project".toList, "name".toList, "\"panels\"".toList⟩,
        ⟨"project".toList, "kind".toList, "\"svg\"".toList⟩,
        ⟨"project".toList, "normalize".toList, "maybe".toList⟩] := by decide +kernel
  constructor
  · have hmeans := project_file_means_last_assignments hpanels
    simp only [hdeclared] at hmeans
    exact ((hmeans.2 (by decide +kernel)).2 "\"panels\"".toList (by decide +kernel)
      (by decide +kernel)).trans (by decide +kernel)
  · exact (project_file_means_last_assignments hmended).1 []
      ⟨"compile".toList, "normalize".toList, "yes".toList⟩
      [⟨"project".toList, "name".toList, "late".toList⟩,
        ⟨"project".toList, "kind".toList, "mathml".toList⟩,
        ⟨"compile".toList, "normalize".toList, "true".toList⟩] _
      (by decide +kernel) (by simp) (by decide +kernel)

end DomTemplate

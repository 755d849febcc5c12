import Mathlib
import DomTemplate.Command.Init
import DomTemplate.Proofs.BuildRun
import DomTemplate.Proofs.Files.Names
import DomTemplate.Proofs.Files.ReadBack
import DomTemplate.Proofs.Project.LastAssignments
import DomTemplate.Proofs.Project.NearestFile

/-!
# The name of a new project

The file of a new project holds the name between double quotes, as it was given.  Nothing in the
name is escaped: what stands between the quotes is read back to the end of its line, and the quotes
at both ends are dropped however many there are.
-/

namespace DomTemplate

/-- The names that survive: they fill one line, and no quote of their own is taken for one that
was put around them. -/
structure IsProjectName (name : String) : Prop where
  ne_empty : name ≠ ""
  noLineFeed : '\n' ∉ name.toList
  head_ne : name.toList.head? ≠ some '"'
  last_ne : name.toList.getLast? ≠ some '"'

/-! ## Names that a project file can give -/

theorem value_sublist_line {line key value : List Char}
    (h : keyAndValue? line = some (key, value)) : value.Sublist line := by
  unfold keyAndValue? at h
  split_ifs at h
  obtain ⟨-, rfl⟩ := Prod.mk.inj (Option.some.inj h)
  have htrimmed : ((Text.trim line).dropWhile (· ≠ '=')).tail.Sublist line :=
    (List.tail_sublist _).trans ((List.dropWhile_sublist _).trans (Text.strip_sublist _ _))
  exact (Text.strip_sublist _ _).trans htrimmed

theorem lineFeed_not_mem_lastValue {text : List Char} {heading key : String} {value : List Char}
    (h : lastValue? (declared (Text.lines text)) heading key = some value) : '\n' ∉ value := by
  obtain ⟨a, ha, hvalue⟩ := List.exists_of_findSome?_eq_some h
  obtain ⟨⟨line, index⟩, hline, hassignment⟩ :=
    List.mem_filterMap.mp (List.mem_reverse.mp ha)
  obtain ⟨⟨lineKey, lineValue⟩, hpair, rfl⟩ := Option.map_eq_some_iff.mp hassignment
  unfold Assignment.valueFor? at hvalue
  split_ifs at hvalue
  obtain rfl := Option.some.inj hvalue
  exact fun hmem => Text.lineFeed_not_mem_of_mem_lines (List.fst_mem_of_mem_zipIdx hline)
    ((value_sublist_line hpair).subset hmem)

/-- Whatever a project file says, its name has no line feed and no quote at either end. -/
theorem isProjectName_of_read {text : String} {s : Settings} (h : Settings.read text = .ok s) :
    IsProjectName s.name := by
  cases hfault : (declared (Text.lines text.toList)).findSome? Assignment.fault? with
  | some error =>
      rw [Settings.read_of_fault hfault] at h
      exact absurd h (by simp)
  | none =>
      rw [Settings.read_of_no_fault hfault] at h
      split_ifs at h with hname
      obtain rfl := Except.ok.inj h
      cases hvalue : lastValue? (declared (Text.lines text.toList)) "project" "name" with
      | none => exact absurd (by simp [Settings.ofValues, Settings.updated, hvalue]) hname
      | some value =>
          have htext : (Settings.ofValues
              (lastValue? (declared (Text.lines text.toList)))).name.toList = Text.unquote value := by
            simp [Settings.ofValues, Settings.updated, hvalue, Settings.textValue]
          refine ⟨hname, ?_, ?_, ?_⟩
          · rw [htext]
            exact fun hmem => lineFeed_not_mem_lastValue hvalue
              ((Text.strip_sublist _ _).subset hmem)
          · rw [htext]
            exact Text.head?_strip_ne (by rfl) value
          · rw [htext]
            exact Text.getLast?_strip_ne (by rfl) value

/-! ## Lines that set a key -/

/-- A text between double quotes. -/
def quotedName (name : String) : List Char :=
  '"' :: (name.toList ++ ['"'])

/-- A line that sets a key. -/
def settingLine (key value : List Char) : List Char :=
  key ++ ([' ', '=', ' '] ++ value)

theorem getLast?_quotedName (name : String) : (quotedName name).getLast? = some '"' := by
  rw [quotedName, ← List.cons_append, List.getLast?_concat]

theorem trim_quotedName {left : List Char} (hleft : ∀ c ∈ left, Text.isBlank c = true)
    (name : String) : Text.trim (left ++ quotedName name) = quotedName name := by
  have hstrip : Text.trim (left ++ (quotedName name ++ [])) = quotedName name :=
    Text.strip_append hleft (by simp) ⟨'"', by rfl, by decide⟩
      ⟨'"', getLast?_quotedName name, by decide⟩
  rwa [List.append_nil] at hstrip

/-- The quotes around a text can be told from the text if none stands at its own ends. -/
theorem unquote_quotedName {name : String} (hne : name ≠ "") (hhead : name.toList.head? ≠ some '"')
    (hlast : name.toList.getLast? ≠ some '"') : Text.unquote (quotedName name) = name.toList := by
  have hne : name.toList ≠ [] := by simpa using hne
  have hquote : ∀ c : Char, c ≠ '"' → (c == '"') = false := by simp
  have hhead : ∃ c, name.toList.head? = some c ∧ (c == '"') = false := by
    refine ⟨name.toList.head hne, List.head?_eq_some_head hne, hquote _ fun hc => ?_⟩
    exact hhead (by rw [List.head?_eq_some_head hne, hc])
  have hlast : ∃ c, name.toList.getLast? = some c ∧ (c == '"') = false := by
    refine ⟨name.toList.getLast hne, List.getLast?_eq_some_getLast hne, hquote _ fun hc => ?_⟩
    exact hlast (by rw [List.getLast?_eq_some_getLast hne, hc])
  have hunquote : Text.unquote (['"'] ++ (name.toList ++ ['"'])) = name.toList :=
    Text.strip_append (by simp) (by simp) hhead hlast
  rwa [List.singleton_append] at hunquote

theorem isBlank_of_isLower {c : Char} (h : c.isLower = true) : Text.isBlank c = false := by
  have hrange : 97 ≤ c.toNat ∧ c.toNat ≤ 122 := by
    simpa [Char.isLower, Char.le_def, UInt32.le_iff_toNat_le] using h
  rw [Text.isBlank, List.any_eq_false]
  intro range hmem
  fin_cases hmem <;> simp <;> omega

section

variable {key value : List Char} (hkey : key ≠ []) (hletters : key.all Char.isLower = true)

include hletters

theorem not_mem_of_isLower {c : Char} (hc : c.isLower = false) : c ∉ key := by
  intro hmem
  have hlower := List.all_eq_true.mp hletters c hmem
  rw [hc] at hlower
  exact absurd hlower (by decide)

theorem splitOnce_settingLine :
    Text.splitOnce '=' (settingLine key value) = some (key ++ [' '], ' ' :: value) := by
  have hsign : '=' ∉ key ++ [' '] := by
    simp [not_mem_of_isLower hletters (show '='.isLower = false by decide)]
  rw [← Text.splitOnce_append_of_not_mem hsign, settingLine]
  simp

include hkey

/-- No class without lower case letters has an end of a key. -/
theorem exists_ends_of_isLower {p : Char → Bool} (hp : ∀ c, c.isLower = true → p c = false) :
    (∃ c, key.head? = some c ∧ p c = false) ∧ ∃ c, key.getLast? = some c ∧ p c = false := by
  have hall := List.all_eq_true.mp hletters
  exact ⟨⟨_, List.head?_eq_some_head hkey, hp _ (hall _ (List.head_mem hkey))⟩,
    ⟨_, List.getLast?_eq_some_getLast hkey, hp _ (hall _ (List.getLast_mem hkey))⟩⟩

theorem unquote_trim_key : Text.unquote (Text.trim (key ++ [' '])) = key := by
  have hblank := exists_ends_of_isLower hkey hletters fun _ => isBlank_of_isLower
  have hquote := exists_ends_of_isLower (p := (· == '"')) hkey hletters fun c hc => by
    rw [beq_eq_false_iff_ne]
    rintro rfl
    exact absurd hc (by decide)
  have htrim : Text.trim ([] ++ (key ++ [' '])) = key :=
    Text.strip_append (by simp) (List.forall_mem_singleton.mpr (by decide)) hblank.1 hblank.2
  rw [List.nil_append] at htrim
  rw [htrim]
  exact Text.strip_eq_self hquote.1 hquote.2

/-- A key of lower case letters and a value without blanks at its ends are read as they are
written. -/
theorem ofText_settingLine (hhead : ∃ c, value.head? = some c ∧ Text.isBlank c = false)
    (hlast : ∃ c, value.getLast? = some c ∧ Text.isBlank c = false) :
    SettingsLine.ofText (settingLine key value) = .assignment key value := by
  obtain ⟨first, rest, rfl⟩ := List.exists_cons_of_ne_nil hkey
  have hfirst : first.isLower = true := List.all_eq_true.mp hletters first List.mem_cons_self
  have hline : Text.trim (settingLine (first :: rest) value) = settingLine (first :: rest) value := by
    obtain ⟨c, hc, hblank⟩ := hlast
    refine Text.strip_eq_self ⟨first, rfl, isBlank_of_isLower hfirst⟩ ⟨c, ?_, hblank⟩
    rw [settingLine, ← List.append_assoc, List.getLast?_append, hc]
    rfl
  have hvalue : Text.trim ([' '] ++ (value ++ [])) = value :=
    Text.strip_append (List.forall_mem_singleton.mpr (by decide)) (by simp) hhead hlast
  rw [List.append_nil, List.singleton_append] at hvalue
  -- A letter begins neither a comment nor a heading.
  have hcomment : first ≠ '#' := by
    rintro rfl
    exact absurd hfirst (by decide)
  have hheading : first ≠ '[' := by
    rintro rfl
    exact absurd hfirst (by decide)
  have hlineHead : (settingLine (first :: rest) value).head? = some first := rfl
  have hne : settingLine (first :: rest) value ≠ [] := List.cons_ne_nil _ _
  unfold SettingsLine.ofText
  simp only [hline, splitOnce_settingLine hletters, unquote_trim_key hkey hletters, hvalue, hlineHead]
  simp [hne, hcomment, hheading]

end

/-! ## The file of a new project -/

/-- The line that names a new project. -/
def nameLine (name : String) : List Char :=
  ['n', 'a', 'm', 'e', ' ', '=', ' '] ++ quotedName name

theorem getLast?_nameLine (name : String) : (nameLine name).getLast? = some '"' := by
  rw [nameLine, List.getLast?_append, getLast?_quotedName]
  rfl

theorem ofText_nameLine (name : String) :
    SettingsLine.ofText (nameLine name) = .assignment "name".toList (quotedName name) := by
  have hline : nameLine name = settingLine "name".toList (quotedName name) := by
    simp [nameLine, settingLine]
  rw [hline]
  exact ofText_settingLine (by simp) (by decide +kernel) ⟨'"', by rfl, by decide⟩
    ⟨'"', getLast?_quotedName name, by decide⟩

theorem toList_newProjectFile (name : String) :
    (newProjectFile name).toList = "[project]".toList ++ '\n' :: (nameLine name ++ '\n' ::
      ("version = \"0.1.0\"".toList ++ '\n' :: ("entry = \"template.json\"".toList ++ '\n' ::
        ([] ++ '\n' :: ("[compile]".toList ++ '\n' ::
          ("normalize = true".toList ++ '\n' :: [])))))) := by
  unfold newProjectFile nameLine quotedName
  simp

theorem lineFeed_not_mem_nameLine {name : String} (hname : '\n' ∉ name.toList) :
    '\n' ∉ nameLine name := by
  simp [nameLine, quotedName, hname]

theorem lines_newProjectFile {name : String} (hname : '\n' ∉ name.toList) :
    Text.lines (newProjectFile name).toList =
      ["[project]".toList, nameLine name, "version = \"0.1.0\"".toList,
        "entry = \"template.json\"".toList, [], "[compile]".toList, "normalize = true".toList] := by
  have hend : (nameLine name).getLast? ≠ some '\r' := by
    rw [getLast?_nameLine]
    decide
  rw [toList_newProjectFile, Text.lines_append (by simp) (by simp),
    Text.lines_append (lineFeed_not_mem_nameLine hname) hend,
    Text.lines_append (by simp) (by simp), Text.lines_append (by simp) (by simp),
    Text.lines_append (by simp) (by simp), Text.lines_append (by simp) (by simp),
    Text.lines_append (by simp) (by simp)]
  rfl

theorem declared_newProjectFile {name : String} (hname : '\n' ∉ name.toList) :
    declared (Text.lines (newProjectFile name).toList) =
      [⟨"project".toList, "name".toList, quotedName name⟩,
        ⟨"project".toList, "version".toList, "\"0.1.0\"".toList⟩,
        ⟨"project".toList, "entry".toList, "\"template.json\"".toList⟩,
        ⟨"compile".toList, "normalize".toList, "true".toList⟩] := by
  have hproject : SettingsLine.ofText "[project]".toList = .heading "project".toList := by
    decide +kernel
  have hversion : SettingsLine.ofText "version = \"0.1.0\"".toList =
      .assignment "version".toList "\"0.1.0\"".toList := by decide +kernel
  have hentry : SettingsLine.ofText "entry = \"template.json\"".toList =
      .assignment "entry".toList "\"template.json\"".toList := by decide +kernel
  have hempty : SettingsLine.ofText [] = .other := by decide +kernel
  have hcompile : SettingsLine.ofText "[compile]".toList = .heading "compile".toList := by
    decide +kernel
  have hnormalize : SettingsLine.ofText "normalize = true".toList =
      .assignment "normalize".toList "true".toList := by decide +kernel
  rw [← assignments_eq_declared, lines_newProjectFile hname]
  simp only [assignments, hproject, ofText_nameLine, hversion, hentry, hempty, hcompile, hnormalize]

theorem textValue_quotedName {name : String} (hname : IsProjectName name) :
    Settings.textValue (quotedName name) = name := by
  rw [Settings.textValue, unquote_quotedName hname.ne_empty hname.head_ne hname.last_ne,
    String.ofList_toList]

theorem valueFor?_toList (inHeading inKey heading key : String) (value : List Char) :
    Assignment.valueFor? heading key ⟨inHeading.toList, inKey.toList, value⟩ =
      if inHeading = heading ∧ inKey = key then some value else none := by
  simp only [Assignment.valueFor?, String.ofList_toList]

theorem lastValue?_newProjectFile {name : String} (hname : '\n' ∉ name.toList)
    (heading key : String) :
    lastValue? (declared (Text.lines (newProjectFile name).toList)) heading key =
      if "compile" = heading ∧ "normalize" = key then some "true".toList
      else if "project" = heading ∧ "entry" = key then some "\"template.json\"".toList
      else if "project" = heading ∧ "version" = key then some "\"0.1.0\"".toList
      else if "project" = heading ∧ "name" = key then some (quotedName name)
      else none := by
  rw [declared_newProjectFile hname]
  simp only [lastValue?_cons, valueFor?_toList]
  generalize "true".toList = a, "\"template.json\"".toList = b, "\"0.1.0\"".toList = c
  split_ifs <;> rfl

theorem read_newProjectFile {name : String} (hname : IsProjectName name) :
    Settings.read (newProjectFile name) =
      .ok { name, version := "0.1.0", entries := ["template.json"] } := by
  have hdeclared := declared_newProjectFile hname.noLineFeed
  have hvalue := lastValue?_newProjectFile hname.noLineFeed
  have hfault : (declared (Text.lines (newProjectFile name).toList)).findSome?
      Assignment.fault? = none := by
    rw [hdeclared]
    simp [Assignment.fault?, Assignment.valueFor?]
  have hversion : Settings.textValue "\"0.1.0\"".toList = "0.1.0" := by decide +kernel
  have hentry : Settings.entryTexts "\"template.json\"".toList = ["template.json"] := by
    decide +kernel
  have hvalues : Settings.ofValues
      (lastValue? (declared (Text.lines (newProjectFile name).toList))) =
      { name, version := "0.1.0", entries := ["template.json"] } := by
    -- The texts stay as they are written, so that the facts about them apply.
    simp [hvalue, Settings.ofValues, Settings.updated, Settings.entriesOf, hversion, hentry,
      textValue_quotedName hname, -String.reduceToList]
  rw [Settings.read_of_no_fault hfault, hvalues, if_neg hname.ne_empty]

/-! ## Starting a project -/

theorem isName_exampleTemplate : Path.IsName (Text.bytes "template.json") :=
  ⟨by decide +kernel, by decide +kernel, by decide +kernel⟩

/-- A project that has been started can be read back: its template does not hide its file. -/
theorem readText_of_writeProject {disk : Disk} {directory : Path} {name : String}
    (h : (disk.run (writeProject directory name)).1.code = 0) :
    (disk.run (writeProject directory name)).2.readText (directory.join (.ofText projectFileName)) =
      .ok (newProjectFile name) := by
  have hfailure : ∀ message, (Report.failure message).code ≠ 0 := fun _ => by simp [Report.failure]
  have hpresent : ∀ path, disk.run (FileAccess.isPresent path) = (disk.isPresent path, disk) :=
    fun _ => rfl
  rw [writeProject, Disk.run_bind, hpresent] at h ⊢
  cases hfound : disk.isPresent (directory.join (.ofText projectFileName)) with
  | true =>
      simp only [hfound, if_true] at h
      exact absurd h (hfailure _)
  | false =>
      simp only [hfound, Bool.false_eq_true, if_false, Disk.run_bind, run_writeText] at h ⊢
      cases hfile : disk.writeText (directory.join (.ofText projectFileName))
          (newProjectFile name) with
      | error fault =>
          simp only [hfile] at h
          exact absurd h (hfailure _)
      | ok middle =>
          simp only [hfile, Disk.run_bind, run_writeText] at h ⊢
          cases htemplate : middle.writeText (directory.join (.ofText "template.json"))
              exampleTemplate with
          | error fault =>
              simp only [htemplate] at h
              exact absurd h (hfailure _)
          | ok after =>
              -- Both files lie in one directory, under two names.
              have hplaces : middle.placeOf (directory.join (.ofText projectFileName)) ≠
                  middle.placeOf (directory.join (.ofText "template.json")) := by
                rw [Disk.placeOf_join _ _ isName_projectFileName,
                  Disk.placeOf_join _ _ isName_exampleTemplate, Ne, Array.push_eq_push]
                exact fun hsame => absurd hsame.1 (by decide +kernel)
              exact Disk.readText_of_writeText_other (Disk.readText_of_writeText hfile) htemplate
                hplaces

theorem readText_of_initProject {disk : Disk} {name : String}
    (h : (disk.run (initProject (some name))).1.code = 0) :
    (disk.run (initProject (some name))).2.readText
      ((Path.ofText name).join (.ofText projectFileName)) = .ok (newProjectFile name) := by
  rw [initProject] at h ⊢
  simp only [Disk.run_bind, run_createDirectories] at h ⊢
  rcases hmade : disk.createDirectories (.ofText name) with ⟨result, after⟩
  rw [hmade] at h
  cases result with
  | error fault => exact absurd (show (1 : UInt32) = 0 from h) (by decide)
  | ok _ => exact readText_of_writeProject h

/-- A new project has the name it was given if the name is not empty, has no line feed, and has no
double quote at either end. -/
theorem new_project_has_its_name (name : String) :
    (∀ file, (∃ project, Project.ofText file (newProjectFile name) = .ok project ∧
      project.name = name) ↔ IsProjectName name) ∧
    (IsProjectName name → ∀ file,
      Project.ofText file (newProjectFile name) = .ok {
        name
        version := "0.1.0"
        entries := [(file.parent?.getD (.ofText ".")).join (.ofText "template.json")]
        output := none
        directory := file.parent?.getD (.ofText ".")
        dialect := none
        normalize := true }) ∧
    ∀ disk : Disk, (disk.run (initProject (some name))).1.code = 0 →
      ((disk.run (initProject (some name))).2.run
        (Project.load ((Path.ofText name).join (.ofText projectFileName)))).1 =
          Project.ofText ((Path.ofText name).join (.ofText projectFileName))
            (newProjectFile name) := by
  have hproject : IsProjectName name → ∀ file, Project.ofText file (newProjectFile name) =
      .ok (Project.ofSettings (file.parent?.getD (.ofText "."))
        { name, version := "0.1.0", entries := ["template.json"] }) := by
    intro hname file
    rw [Project.ofText, read_newProjectFile hname]
  refine ⟨fun file => ⟨?_, fun hname => ⟨_, hproject hname file, rfl⟩⟩, hproject, ?_⟩
  · rintro ⟨project, hloaded, hname⟩
    rw [Project.ofText] at hloaded
    split at hloaded
    · next s hs =>
      obtain rfl := Except.ok.inj hloaded
      exact hname ▸ isProjectName_of_read hs
    · exact absurd hloaded (by simp)
  · intro disk hcode
    exact Project.run_load (readText_of_initProject hcode)

/-- A name that looks like settings, and keeps its blank and its quotes. -/
def boldName : String := " kind=\"svg\" #[x]\r"

theorem bold_project_has_its_name :
    IsProjectName boldName ∧
      ((Disk.empty (Text.bytes "w")).run (initProject (some boldName))).1.code = 0 ∧
      (((Disk.empty (Text.bytes "w")).run (initProject (some boldName))).2.run
        (Project.load (.ofText (boldName ++ "/tplc.toml")))).1 = .ok {
          name := boldName
          version := "0.1.0"
          entries := [.ofText (boldName ++ "/template.json")]
          output := none
          directory := .ofText boldName
          dialect := none
          normalize := true } := by
  have hname : IsProjectName boldName :=
    ⟨by decide +kernel, by decide +kernel, by decide +kernel, by decide +kernel⟩
  have hcode : ((Disk.empty (Text.bytes "w")).run (initProject (some boldName))).1.code = 0 := by
    decide +kernel
  refine ⟨hname, hcode, ?_⟩
  have hfile : (Path.ofText boldName).join (.ofText projectFileName) =
      .ofText (boldName ++ "/tplc.toml") := by decide +kernel
  have hparent : (Path.ofText (boldName ++ "/tplc.toml")).parent? = some (.ofText boldName) := by
    decide +kernel
  have hentry : (Path.ofText boldName).join (.ofText "template.json") =
      .ofText (boldName ++ "/template.json") := by decide +kernel
  have hloaded := (new_project_has_its_name boldName).2.2 (Disk.empty (Text.bytes "w")) hcode
  rw [(new_project_has_its_name boldName).2.1 hname, hfile, hparent, Option.getD_some,
    hentry] at hloaded
  exact hloaded

end DomTemplate

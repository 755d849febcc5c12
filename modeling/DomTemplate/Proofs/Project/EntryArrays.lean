import Mathlib
import DomTemplate.Proofs.Files.Names
import DomTemplate.Proofs.Project.NewProject

/-!
# Entries in square brackets

A project file may list its entries between square brackets, each between double quotes.  The list
is cut at its commas, wherever they stand, and the quotes around a piece are dropped however many
there are.  So the entries are read back if and only if none of them is empty, has a comma, or has a
double quote at an end.  Blanks, brackets, equality signs and number signs do no harm.
-/

namespace DomTemplate

/-- The entries that survive: no comma of their own ends them, and no quote of their own is taken for
one that was put around them. -/
structure IsEntry (entry : String) : Prop where
  ne_empty : entry ≠ ""
  noComma : ',' ∉ entry.toList
  head_ne : entry.toList.head? ≠ some '"'
  last_ne : entry.toList.getLast? ≠ some '"'

instance : DecidablePred IsEntry := fun entry =>
  decidable_of_iff (entry ≠ "" ∧ ',' ∉ entry.toList ∧ entry.toList.head? ≠ some '"' ∧
      entry.toList.getLast? ≠ some '"')
    ⟨fun ⟨hne, hcomma, hhead, hlast⟩ => ⟨hne, hcomma, hhead, hlast⟩,
      fun h => ⟨h.ne_empty, h.noComma, h.head_ne, h.last_ne⟩⟩

/-- The entries of a project, as they are written between square brackets. -/
def entryArray (entries : List String) : List Char :=
  '[' :: ([',', ' '].intercalate (entries.map quotedName) ++ [']'])

theorem getLast?_entryArray (entries : List String) :
    (entryArray entries).getLast? = some ']' := by
  rw [entryArray, ← List.cons_append, List.getLast?_concat]

/-! ## Reading a list of entries -/

theorem readEntries_entryArray (entries : List String) :
    readEntries (entryArray entries) =
      ((Text.pieces ',' ([',', ' '].intercalate (entries.map quotedName))).map
        fun piece => Text.unquote (Text.trim piece)).filter (!·.isEmpty) := by
  have hlast := getLast?_entryArray entries
  have hhead : (entryArray entries).head? = some '[' := rfl
  have htrim : Text.trim (entryArray entries) = entryArray entries :=
    Text.strip_eq_self ⟨'[', hhead, by decide⟩ ⟨']', hlast, by decide⟩
  have hinner : (entryArray entries).tail.dropLast =
      [',', ' '].intercalate (entries.map quotedName) := by
    rw [entryArray, List.tail_cons, List.dropLast_concat]
  simp [readEntries, htrim, hhead, hlast, hinner]

/-- Whatever is read as an entry could have been written as one. -/
theorem isEntry_of_mem_readEntries {text entry : List Char} (h : entry ∈ readEntries text) :
    IsEntry (String.ofList entry) := by
  unfold readEntries at h
  simp only at h
  split at h
  · obtain ⟨hmem, hne⟩ := List.mem_filter.mp h
    obtain ⟨piece, hpiece, rfl⟩ := List.mem_map.mp hmem
    have hsub : (Text.unquote (Text.trim piece)).Sublist piece :=
      (Text.strip_sublist _ _).trans (Text.strip_sublist _ _)
    refine ⟨by simpa using hne, ?_, ?_, ?_⟩
    · rw [String.toList_ofList]
      exact fun hcomma => Text.not_mem_of_mem_pieces hpiece (hsub.subset hcomma)
    · rw [String.toList_ofList]
      exact Text.head?_strip_ne (by rfl) _
    · rw [String.toList_ofList]
      exact Text.getLast?_strip_ne (by rfl) _
  · exact absurd h List.not_mem_nil

theorem comma_not_mem_quotedName {entry : String} (h : IsEntry entry) : ',' ∉ quotedName entry := by
  simp [quotedName, h.noComma]

/-- Entries without commas are cut apart where they were put together; all but the first keep the
blank in front of them. -/
theorem pieces_intercalate {entry : String} {entries : List String} (hentry : IsEntry entry)
    (hentries : ∀ other ∈ entries, IsEntry other) :
    Text.pieces ',' ([',', ' '].intercalate ((entry :: entries).map quotedName)) =
      quotedName entry :: entries.map fun other => ' ' :: quotedName other := by
  induction entries generalizing entry with
  | nil =>
      rw [List.map_singleton, List.intercalate_singleton]
      exact Text.pieces_of_not_mem (comma_not_mem_quotedName hentry)
  | cons next entries ih =>
      obtain ⟨hnext, hentries⟩ := List.forall_mem_cons.mp hentries
      have hrest := ih hnext hentries
      rw [List.map_cons] at hrest
      -- Behind the comma the blank is put in front of the first piece of the rest.
      rw [List.map_cons, List.map_cons, List.intercalate_cons_cons, List.append_assoc,
        List.cons_append, List.singleton_append, Text.pieces_append_separator,
        Text.pieces_of_not_mem (comma_not_mem_quotedName hentry), Text.pieces, if_neg (by decide),
        hrest]
      rfl

theorem unquote_trim_quotedName {entry : String} (h : IsEntry entry) (left : List Char)
    (hleft : ∀ c ∈ left, Text.isBlank c = true) :
    Text.unquote (Text.trim (left ++ quotedName entry)) = entry.toList := by
  rw [trim_quotedName hleft, unquote_quotedName h.ne_empty h.head_ne h.last_ne]

theorem readEntries_of_isEntry {entries : List String} (h : ∀ entry ∈ entries, IsEntry entry) :
    readEntries (entryArray entries) = entries.map String.toList := by
  rw [readEntries_entryArray]
  cases entries with
  | nil => rfl
  | cons entry entries =>
      obtain ⟨hentry, hentries⟩ := List.forall_mem_cons.mp h
      have hfirst := unquote_trim_quotedName hentry [] (by simp)
      have hothers : (entries.map fun other => ' ' :: quotedName other).map
          (fun piece => Text.unquote (Text.trim piece)) = entries.map String.toList := by
        rw [List.map_map]
        refine List.map_congr_left fun other hother => ?_
        exact unquote_trim_quotedName (hentries other hother) [' ']
          (List.forall_mem_singleton.mpr (by decide))
      rw [List.nil_append] at hfirst
      rw [pieces_intercalate hentry hentries, List.map_cons, hothers, hfirst, ← List.map_cons,
        List.filter_eq_self]
      intro text htext
      obtain ⟨other, hother, rfl⟩ := List.mem_map.mp htext
      simpa using (h other hother).ne_empty

theorem readEntries_eq_iff (entries : List String) :
    (readEntries (entryArray entries)).map String.ofList = entries ↔
      ∀ entry ∈ entries, IsEntry entry := by
  constructor
  · intro hread entry hentry
    rw [← hread] at hentry
    obtain ⟨text, htext, rfl⟩ := List.mem_map.mp hentry
    exact isEntry_of_mem_readEntries htext
  · intro hentries
    rw [readEntries_of_isEntry hentries, List.map_map]
    simp

/-! ## Entries in a project file -/

/-- The text of a project file with a name and entries. -/
def entriesFile (name : String) (entries : List String) : String :=
  "[project]\nname = \"" ++ name ++ "\"\nentry = " ++ String.ofList (entryArray entries) ++ "\n"

/-- The line of the entries. -/
def entryLine (entries : List String) : List Char :=
  settingLine "entry".toList (entryArray entries)

theorem ofText_entryLine (entries : List String) :
    SettingsLine.ofText (entryLine entries) =
      .assignment "entry".toList (entryArray entries) :=
  ofText_settingLine (by simp) (by decide +kernel) ⟨'[', by rfl, by decide⟩
    ⟨']', getLast?_entryArray entries, by decide⟩

theorem lineFeed_not_mem_intercalate {entries : List String}
    (h : ∀ entry ∈ entries, '\n' ∉ entry.toList) :
    '\n' ∉ [',', ' '].intercalate (entries.map quotedName) := by
  have hquoted : ∀ entry ∈ entries, '\n' ∉ quotedName entry := by
    intro entry hentry
    simp [quotedName, h entry hentry]
  induction entries with
  | nil => simp
  | cons entry entries ih =>
      obtain ⟨hentry, hrest⟩ := List.forall_mem_cons.mp hquoted
      cases entries with
      | nil => simpa using hentry
      | cons next entries =>
          have hmore := ih (List.forall_mem_cons.mp h).2 hrest
          rw [List.map_cons] at hmore
          rw [List.map_cons, List.map_cons, List.intercalate_cons_cons]
          simp [hentry, hmore]

theorem lineFeed_not_mem_entryLine {entries : List String}
    (h : ∀ entry ∈ entries, '\n' ∉ entry.toList) : '\n' ∉ entryLine entries := by
  simp [entryLine, settingLine, entryArray, lineFeed_not_mem_intercalate h]

theorem toList_entriesFile (name : String) (entries : List String) :
    (entriesFile name entries).toList = "[project]".toList ++ '\n' :: (nameLine name ++ '\n' ::
      (entryLine entries ++ '\n' :: [])) := by
  unfold entriesFile nameLine quotedName entryLine settingLine
  simp

theorem declared_entriesFile {name : String} {entries : List String} (hname : '\n' ∉ name.toList)
    (hentries : ∀ entry ∈ entries, '\n' ∉ entry.toList) :
    declared (Text.lines (entriesFile name entries).toList) =
      [⟨"project".toList, "name".toList, quotedName name⟩,
        ⟨"project".toList, "entry".toList, entryArray entries⟩] := by
  have hproject : SettingsLine.ofText "[project]".toList = .heading "project".toList := by
    decide +kernel
  have hnameEnd : (nameLine name).getLast? ≠ some '\r' := by
    rw [getLast?_nameLine]
    decide
  have hentryEnd : (entryLine entries).getLast? ≠ some '\r' := by
    rw [entryLine, settingLine, List.getLast?_append, List.getLast?_append, getLast?_entryArray]
    decide
  rw [← assignments_eq_declared, toList_entriesFile, Text.lines_append (by simp) (by simp),
    Text.lines_append (lineFeed_not_mem_nameLine hname) hnameEnd,
    Text.lines_append (lineFeed_not_mem_entryLine hentries) hentryEnd]
  simp only [assignments, hproject, ofText_nameLine, ofText_entryLine]
  rfl

theorem entryTexts_entryArray (entries : List String) :
    Settings.entryTexts (entryArray entries) =
      (readEntries (entryArray entries)).map String.ofList :=
  if_pos rfl

theorem read_entriesFile {name : String} {entries : List String} (hname : IsProjectName name)
    (hentries : ∀ entry ∈ entries, '\n' ∉ entry.toList) :
    Settings.read (entriesFile name entries) =
      .ok { name, entries := Settings.entriesOf (some (entryArray entries)) } := by
  have hdeclared := declared_entriesFile hname.noLineFeed hentries
  have hfault : (declared (Text.lines (entriesFile name entries).toList)).findSome?
      Assignment.fault? = none := by
    rw [hdeclared]
    simp [Assignment.fault?, Assignment.valueFor?]
  have hvalue : ∀ heading key,
      lastValue? (declared (Text.lines (entriesFile name entries).toList)) heading key =
        if "project" = heading ∧ "entry" = key then some (entryArray entries)
        else if "project" = heading ∧ "name" = key then some (quotedName name)
        else none := by
    intro heading key
    rw [hdeclared]
    simp only [lastValue?_cons, valueFor?_toList]
    split_ifs <;> rfl
  have hvalues : Settings.ofValues
      (lastValue? (declared (Text.lines (entriesFile name entries).toList))) =
      { name, entries := Settings.entriesOf (some (entryArray entries)) } := by
    simp [hvalue, Settings.ofValues, Settings.updated, textValue_quotedName hname]
  rw [Settings.read_of_no_fault hfault, hvalues, if_neg hname.ne_empty]

theorem entriesOf_entryArray_eq_iff {entries : List String} (hne : entries ≠ []) :
    Settings.entriesOf (some (entryArray entries)) = entries ↔
      ∀ entry ∈ entries, IsEntry entry := by
  rw [Settings.entriesOf, Option.elim_some, entryTexts_entryArray, ← readEntries_eq_iff]
  split
  · next hnone =>
    -- Without an entry the file has the default one, which would have been read back.
    rw [hnone]
    constructor
    · rintro rfl
      exact absurd hnone (by decide +kernel)
    · exact fun hnil => absurd hnil.symm hne
  · rfl

/-- The entries between square brackets are read back if and only if none of them is empty, has a
comma, or has a double quote at an end.  Without line feeds they can be put into a project file, and
the file has them under the same condition. -/
theorem entries_read_back_iff (entries : List String) :
    ((readEntries (entryArray entries)).map String.ofList = entries ↔
      ∀ entry ∈ entries, IsEntry entry) ∧
    ((∀ entry ∈ entries, '\n' ∉ entry.toList) → entries ≠ [] → ∀ name, IsProjectName name →
      (Settings.read (entriesFile name entries) = .ok { name, entries } ↔
        ∀ entry ∈ entries, IsEntry entry)) := by
  refine ⟨readEntries_eq_iff entries, fun hlines hne name hname => ?_⟩
  rw [read_entriesFile hname hlines, ← entriesOf_entryArray_eq_iff hne]
  constructor
  · intro hread
    exact congrArg Settings.entries (Except.ok.inj hread)
  · intro hentries
    rw [hentries]

/-- Entries with blanks, brackets, signs and quotes inside. -/
def boldEntries : List String := [" a b ", "[x]=\"y\".json", "#"]

theorem bold_entries_read_back :
    (readEntries "[\" a b \", \"[x]=\"y\".json\", \"#\"]".toList).map String.ofList =
      boldEntries ∧
    Settings.read (entriesFile "p" boldEntries) = .ok { name := "p", entries := boldEntries } ∧
    (readEntries "[\"a,b\"]".toList).map String.ofList ≠ ["a,b"] := by
  have hentries : ∀ entry ∈ boldEntries, IsEntry entry := by decide +kernel
  have hname : IsProjectName "p" :=
    ⟨by decide +kernel, by decide +kernel, by decide +kernel, by decide +kernel⟩
  have hbold : entryArray boldEntries = "[\" a b \", \"[x]=\"y\".json\", \"#\"]".toList := by
    decide +kernel
  have hcomma : entryArray ["a,b"] = "[\"a,b\"]".toList := by decide +kernel
  refine ⟨?_, ?_, ?_⟩
  · rw [← hbold]
    exact (entries_read_back_iff boldEntries).1.mpr hentries
  · exact ((entries_read_back_iff boldEntries).2 (by decide +kernel) (by decide +kernel) "p"
      hname).mpr hentries
  · rw [← hcomma]
    exact mt (entries_read_back_iff ["a,b"]).1.mp (by decide +kernel)

end DomTemplate

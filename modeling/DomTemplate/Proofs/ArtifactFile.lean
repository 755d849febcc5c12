import Mathlib
import DomTemplate.Block.Json
import DomTemplate.Proofs.Json.Documents

/-!
# Artifacts are read back from their files

The fields of a root are understood as what they were written for, and a root is read back from any
text of it.  So an artifact is read back from its file, without any condition on it: nothing in an
artifact is nested deep enough to matter, and every word fits.
-/

namespace DomTemplate

open Json

/-! ## Understanding a root -/

theorem asList_wordsToJson (words : List UInt32) :
    (wordsToJson words).asList Value.asWord = .ok words :=
  asList_map _ asWord_toNat words

theorem asList_textsToJson (texts : List String) :
    (textsToJson texts).asList Value.asString = .ok texts :=
  asList_map .string (fun _ => rfl) texts

theorem Shell.ofJson_toJson (shell : Shell) : Shell.ofJson shell.toJson = .ok shell := by
  cases shell with
  | tag name => rfl
  | chunks parts =>
      have hparts := asList_textsToJson parts
      rw [textsToJson] at hparts
      rw [toJson, textsToJson, ofJson, hparts]
      simp

/-- The fields of a written block, without its tag. -/
def EncodedBlock.entries (b : EncodedBlock) : List (String × Value) :=
  [("flags", .integer b.flags.toNat), ("template", b.shell.toJson), ("props", wordsToJson b.binds),
    ("child", wordsToJson b.mounts), ("state", wordsToJson b.walk), ("data", textsToJson b.keys),
    ("exprs", wordsToJson b.inputs)]

theorem foldlM_add_entries (b : EncodedBlock) :
    b.entries.foldlM BlockFields.add {} =
      .ok ⟨some b.flags, some b.shell, some b.binds, some b.mounts, some b.walk, some b.keys,
        some b.inputs⟩ := by
  simp only [EncodedBlock.entries, List.foldlM_cons, BlockFields.add, setOnce_none, asWord_toNat,
    Shell.ofJson_toJson, asList_wordsToJson, asList_textsToJson, ok_bind, List.foldlM_nil]
  rfl

theorem blockOfJson_entries (b : EncodedBlock) : blockOfJson (.object b.entries) = .ok b := by
  rw [blockOfJson, foldlM_add_entries]
  rfl

/-! ## Depth -/

theorem depth_wordsToJson_le (words : List UInt32) : (wordsToJson words).depth ≤ 1 :=
  Value.depth_array_le_iff.mpr (by simp [Value.depth])

theorem depth_textsToJson_le (texts : List String) : (textsToJson texts).depth ≤ 1 :=
  Value.depth_array_le_iff.mpr (by simp [Value.depth])

theorem Shell.depth_toJson_le (shell : Shell) : shell.toJson.depth ≤ 1 := by
  cases shell with
  | tag name => exact Nat.zero_le 1
  | chunks parts => exact depth_textsToJson_le parts

theorem EncodedBlock.depth_entries_le (b : EncodedBlock) :
    ∀ entry ∈ b.entries, entry.2.depth ≤ 1 := by
  simp [entries, Value.depth, depth_wordsToJson_le, depth_textsToJson_le, Shell.depth_toJson_le]

/-! ## Reading -/

/-- A root of an artifact is read back from any text of it. -/
theorem Root.node_eq (root : Root EncodedBlock) {text : List Char} (h : Spells root.toJson text)
    (rest : List Char) :
    node "EncodedNode" RootSort.names Root.ofJson (text ++ rest) = .ok (root, rest) := by
  cases root with
  | block b =>
      have hblock : Spells (.object (("type", .string "block") :: b.entries)) text := h
      refine node_spelled hblock rfl ?_ ?_ ?_ rest
      · simp [EncodedBlock.entries]
      · exact fun entry hentry => le_trans (b.depth_entries_le entry hentry) (by decide)
      · simp only [ofJson, blockOfJson_entries, ok_bind]
  | text value =>
      refine node_spelled h rfl ?_ ?_ ?_ rest
      · simp
      · simp [Value.depth]
      · rfl
  | placeholder target =>
      refine node_spelled h rfl ?_ ?_ ?_ rest
      · simp
      · simp [Value.depth]
      · simp only [ofJson, Value.asSingle, Value.soleField, setOnce_none, required, ok_bind,
          asWord_toNat, if_true]

namespace EncodedArtifact

theorem readRoots_eq {roots : List (Root EncodedBlock)} {text : List Char}
    (h : Spells (.array (roots.map Root.toJson)) text) (gap : Gap) (rest : List Char) :
    readRoots (gap.chars ++ (text ++ rest)) = .ok (roots, rest) :=
  nodeList_spelled (fun root _ _ rest hroot => root.node_eq hroot rest) h gap rest

/-- An artifact is read back from any text of it. -/
theorem read_spelled (artifact : EncodedArtifact) {text : List Char}
    (h : Spells artifact.toJson text) : read text = .ok artifact := by
  obtain ⟨parts, gap, hparts, hspells, rfl⟩ := h.exists_fields
  obtain ⟨part, parts, rfl, hpart, hnone⟩ := List.map_eq_cons_iff.mp hparts.symm
  obtain rfl : parts = [] := List.map_eq_nil_iff.mp hnone
  obtain ⟨hkey, hcontent⟩ := Prod.ext_iff.mp hpart
  have hroots : Spells (.array (artifact.roots.map Root.toJson)) part.content.text := by
    have := hspells part List.mem_cons_self
    rwa [show part.content.value = _ from hcontent] at this
  have hrun : FieldRun readField none [part] (some artifact.roots) := by
    refine .cons (fun rest _ => ?_) (.nil _)
    simp only [readField, show part.key = "roots" from hkey, SpelledField.tail, if_true,
      List.append_assoc, List.cons_append, colon_gap, readRoots_eq hroots, ok_bind]
  have hfields := hrun.fields_eq gap [] rfl
  rw [List.append_nil] at hfields
  simp only [read, skipSpace_cons (c := '\x7b') (by decide), readObject, hfields, ok_bind,
    endObject_brace]
  rfl

end EncodedArtifact

/-! ## Writing -/

theorem plain_wordsToJson (words : List UInt32) : Plain (wordsToJson words) := by
  refine .array ?_
  simp only [List.forall_mem_map]
  exact fun word _ => .word word

theorem plain_textsToJson (texts : List String) : Plain (textsToJson texts) := by
  refine .array ?_
  simp only [List.forall_mem_map]
  exact fun text _ => .string text

theorem Shell.plain_toJson (shell : Shell) : Plain shell.toJson := by
  cases shell with
  | tag name => exact .string name
  | chunks parts => exact plain_textsToJson parts

theorem Root.plain_toJson (root : Root EncodedBlock) : Plain root.toJson := by
  cases root with
  | block b =>
      refine .object ?_
      simp [Plain.string, Plain.word, b.shell.plain_toJson, plain_wordsToJson, plain_textsToJson]
  | text value =>
      refine .object ?_
      simp [Plain.string]
  | placeholder target =>
      refine .object ?_
      simp [Plain.string, Plain.word]

theorem EncodedArtifact.plain_toJson (artifact : EncodedArtifact) : Plain artifact.toJson := by
  refine .object ?_
  simp only [List.mem_singleton, forall_eq]
  refine .array ?_
  simp only [List.forall_mem_map]
  exact fun root _ => root.plain_toJson

/-- The text that is written for an artifact is read as the same artifact. -/
theorem artifact_file_round_trip (artifact : EncodedArtifact) :
    EncodedArtifact.read artifact.toText.toList = .ok artifact := by
  have htext : artifact.toText.toList = artifact.toJson.pretty 0 := String.toList_ofList
  rw [htext]
  exact artifact.read_spelled (artifact.plain_toJson.spells_pretty 0)

end DomTemplate

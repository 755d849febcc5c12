import Mathlib
import DomTemplate.Proofs.Outlines
import DomTemplate.Tree.Placeholders

/-!
# The numbers of placeholders and keys

A registry numbers values by their first arrival.  What is entered stays where it is, so a number
that was given once can be looked up in the final list of entries.
-/

namespace DomTemplate

namespace Registry

variable {α : Type} [DecidableEq α]

theorem mem_insert (registry : Registry α) (a b : α) :
    b ∈ (registry.insert a).entries ↔ b ∈ registry.entries ∨ b = a := by
  rw [insert]
  split
  · constructor
    · exact Or.inl
    · rintro (h | rfl) <;> assumption
  · simp

theorem prefix_insert (registry : Registry α) (a : α) :
    registry.entries <+: (registry.insert a).entries := by
  rw [insert]
  split
  · exact List.prefix_refl _
  · exact List.prefix_append _ _

theorem size_insert_le (registry : Registry α) (a : α) :
    (registry.insert a).size ≤ registry.size + 1 := by
  rw [insert]
  split
  · exact Nat.le_succ _
  · simp [size]

theorem mem_foldl_insert (values : List α) (registry : Registry α) (b : α) :
    b ∈ (values.foldl insert registry).entries ↔ b ∈ registry.entries ∨ b ∈ values := by
  induction values generalizing registry with
  | nil => simp
  | cons a rest ih => rw [List.foldl_cons, ih, mem_insert, List.mem_cons, or_assoc]

theorem nodup_insert {registry : Registry α} (h : registry.entries.Nodup) (a : α) :
    (registry.insert a).entries.Nodup := by
  rw [insert]
  split
  · exact h
  · rename_i hnew
    exact List.nodup_append'.mpr ⟨h, List.nodup_singleton a, by simpa using hnew⟩

theorem nodup_foldl_insert (values : List α) {registry : Registry α}
    (h : registry.entries.Nodup) : (values.foldl insert registry).entries.Nodup := by
  induction values generalizing registry with
  | nil => exact h
  | cons a rest ih => exact ih (nodup_insert h a)

/-- Among the values shown to a registry only those that it has not seen are entered, in the order
in which they first occur. -/
theorem entries_foldl_insert (values : List α) (registry : Registry α) :
    (values.foldl insert registry).entries =
      registry.entries ++ (values.filter (· ∉ registry.entries)).eraseDups := by
  induction values generalizing registry with
  | nil => simp
  | cons a rest ih =>
      rw [List.foldl_cons, ih, insert]
      by_cases hseen : a ∈ registry.entries
      · rw [if_pos hseen, List.filter_cons_of_neg (by simp [hseen])]
      · have hrest : rest.filter (· ∉ registry.entries ++ [a]) =
            (rest.filter (· ∉ registry.entries)).filter (fun b => !b == a) := by
          rw [List.filter_filter]
          refine List.filter_congr fun b _ => ?_
          rw [Bool.eq_iff_iff]
          simp [and_comm]
        rw [if_neg hseen, List.filter_cons_of_pos (by simp [hseen]), List.eraseDups_cons, ← hrest,
          List.append_assoc]
        rfl

/-- The entry under the number of a value is the value. -/
theorem getElem?_of_index? {registry : Registry α} {a : α} {i : Nat}
    (h : registry.index? a = some i) : registry.entries[i]? = some a := by
  obtain ⟨hi, hentry, -⟩ := List.idxOf?_eq_some_iff.mp h
  rw [List.getElem?_eq_getElem hi, hentry]

theorem lt_size_of_index? {registry : Registry α} {a : α} {i : Nat}
    (h : registry.index? a = some i) : i < registry.size :=
  (List.idxOf?_eq_some_iff.mp h).1

/-- The numbers of so few values are exact as words. -/
theorem word?_eq {registry : Registry α} (hsize : registry.size ≤ 2 ^ 32) (a : α) :
    (registry.word? a).map UInt32.toNat = registry.index? a := by
  rw [word?, Option.map_map]
  cases hindex : registry.index? a with
  | none => rfl
  | some i =>
      have hlt := Nat.lt_of_lt_of_le (lt_size_of_index? hindex) hsize
      exact congrArg some (UInt32.toNat_ofNat_of_lt' hlt)

theorem insert_of_mem {registry : Registry α} {a : α} (h : a ∈ registry.entries) :
    registry.insert a = registry := by
  rw [insert, if_pos h]

/-- A new value gets the next number. -/
theorem index?_insert_of_notMem {registry : Registry α} {a : α} (h : a ∉ registry.entries) :
    (registry.insert a).index? a = some registry.size ∧
      (registry.insert a).size = registry.size + 1 := by
  rw [insert, if_neg h]
  constructor
  · rw [index?, List.idxOf?_eq_some_iff]
    refine ⟨by simp [size], by simp [size], ?_⟩
    intro j hj heq
    rw [List.getElem_append_left hj] at heq
    exact h (heq ▸ List.getElem_mem hj)
  · simp [size]

/-- What has been seen has a number. -/
theorem exists_index? {registry : Registry α} {a : α} (h : a ∈ registry.entries) :
    ∃ i, registry.index? a = some i :=
  Option.isSome_iff_exists.mp (List.isSome_idxOf?.mpr h)

theorem exists_index?_insert (registry : Registry α) (a : α) :
    ∃ i, (registry.insert a).index? a = some i :=
  exists_index? ((registry.mem_insert a a).mpr (.inr rfl))

theorem idxOf_of_index? {registry : Registry α} {a : α} {i : Nat}
    (h : registry.index? a = some i) : registry.entries.idxOf a = i := by
  rw [index?] at h
  rw [List.idxOf_eq_getD_idxOf?, h, Option.getD_some]

theorem index?_eq_some_iff {registry : Registry α} (hnodup : registry.entries.Nodup) {a : α}
    {i : Nat} : registry.index? a = some i ↔ registry.entries[i]? = some a := by
  constructor
  · exact getElem?_of_index?
  · intro hentry
    obtain ⟨hlt, hvalue⟩ := List.getElem?_eq_some_iff.mp hentry
    obtain ⟨j, hj⟩ := exists_index? (List.mem_of_getElem? hentry)
    have hsame : i = j :=
      (List.getElem?_inj hlt hnodup).mp (hentry.trans (getElem?_of_index? hj).symm)
    rw [hsame, hj]

/-! ## Registries of other names -/

variable {β : Type} [DecidableEq β] {f : α → β}

/-- The registry with every value under another name. -/
def map (f : α → β) (registry : Registry α) : Registry β :=
  ⟨registry.entries.map f⟩

/-- A value is new under its other name if it is new, as long as no two values get the same name. -/
theorem map_insert {registry : Registry α} {a : α}
    (hinj : Set.InjOn f {b | b ∈ registry.entries ∨ b = a}) :
    (registry.map f).insert (f a) = (registry.insert a).map f := by
  by_cases hseen : a ∈ registry.entries
  · have hrenamed : f a ∈ (registry.map f).entries := List.mem_map_of_mem hseen
    rw [insert_of_mem hseen, insert_of_mem hrenamed]
  · have hrenamed : f a ∉ (registry.map f).entries := by
      intro hmem
      obtain ⟨b, hb, heq⟩ := List.mem_map.mp hmem
      exact hseen (hinj (.inl hb) (.inr rfl) heq ▸ hb)
    rw [insert, insert, if_neg hseen, if_neg hrenamed]
    simp [map]

theorem map_foldl_insert {values : List α} {registry : Registry α}
    (hinj : Set.InjOn f {b | b ∈ registry.entries ∨ b ∈ values}) :
    (values.map f).foldl insert (registry.map f) = (values.foldl insert registry).map f := by
  induction values generalizing registry with
  | nil => rfl
  | cons a rest ih =>
      have hown : Set.InjOn f {b | b ∈ registry.entries ∨ b = a} := by
        refine hinj.mono ?_
        rintro b (hb | rfl)
        · exact .inl hb
        · exact .inr List.mem_cons_self
      have hrest : Set.InjOn f {b | b ∈ (registry.insert a).entries ∨ b ∈ rest} := by
        refine hinj.mono ?_
        rintro b (hb | hb)
        · rcases (registry.mem_insert a b).mp hb with hb | rfl
          · exact .inl hb
          · exact .inr List.mem_cons_self
        · exact .inr (List.mem_cons_of_mem a hb)
      rw [List.map_cons, List.foldl_cons, List.foldl_cons, map_insert hown, ih hrest]

/-- A value keeps its number under its other name. -/
theorem index?_map {registry : Registry α} {a : α}
    (hinj : Set.InjOn f {b | b ∈ registry.entries}) (ha : a ∈ registry.entries) :
    (registry.map f).index? (f a) = registry.index? a := by
  obtain ⟨i, hi⟩ := exists_index? ha
  obtain ⟨hlt, hentry, hbefore⟩ := List.idxOf?_eq_some_iff.mp hi
  rw [hi, index?, List.idxOf?_eq_some_iff]
  refine ⟨by simpa [map] using hlt, by simp [map, hentry], ?_⟩
  intro j hj heq
  have hjlt : j < registry.entries.length := hj.trans hlt
  have hnames : f registry.entries[j] = f a := by simpa [map] using heq
  exact hbefore j hj (hinj (List.getElem_mem hjlt) ha hnames)

end Registry

namespace Node

mutual

/-- The placeholders that occur at and below a node, in document order and with repetitions. -/
def targets : Node → List Placeholder
  | element _ properties children => properties.filterMap Property.target? ++ targetsAll children
  | text _ => []
  | placeholder target => [target]

def targetsAll : List Node → List Placeholder
  | [] => []
  | node :: rest => targets node ++ targetsAll rest

end

mutual

theorem register_eq (seen : Registry Placeholder) :
    ∀ node : Node, register seen node = node.targets.foldl Registry.insert seen
  | element tag properties children => by
      rw [register, registerAll_eq, targets, List.foldl_append, registerProperties]
  | text value => rfl
  | placeholder target => rfl

theorem registerAll_eq (seen : Registry Placeholder) :
    ∀ nodes : List Node, registerAll seen nodes = (targetsAll nodes).foldl Registry.insert seen
  | [] => rfl
  | node :: rest => by
      rw [registerAll, registerAll_eq, register_eq, targetsAll, List.foldl_append]

end

/-- The placeholders of a node are numbered by their first occurrences. -/
theorem entries_placeholders (node : Node) :
    node.placeholders.entries = node.targets.eraseDups := by
  rw [placeholders, register_eq, Registry.entries_foldl_insert]
  simp [Registry.empty]

theorem mem_placeholders (node : Node) (target : Placeholder) :
    target ∈ node.placeholders.entries ↔ target ∈ node.targets := by
  rw [placeholders, register_eq, Registry.mem_foldl_insert]
  simp [Registry.empty]

/-- No placeholder has two numbers. -/
theorem nodup_placeholders (node : Node) : node.placeholders.entries.Nodup := by
  rw [placeholders, register_eq]
  exact Registry.nodup_foldl_insert node.targets List.nodup_nil

/-- There are no more placeholders than words to number them. -/
theorem size_placeholders_le (node : Node) : node.placeholders.size ≤ 2 ^ 32 := by
  let words := node.placeholders.entries.map fun target => target.id.toNat
  have hinj : Function.Injective fun target : Placeholder => target.id.toNat := by
    rintro ⟨id⟩ ⟨other⟩ h
    exact congrArg Placeholder.mk (UInt32.toNat_inj.mp h)
  have hnodup : words.Nodup := node.nodup_placeholders.map hinj
  have hrange : words.toFinset ⊆ Finset.range (2 ^ 32) := by
    intro word hword
    obtain ⟨target, -, rfl⟩ := List.mem_map.mp (List.mem_toFinset.mp hword)
    exact Finset.mem_range.mpr target.id.toNat_lt
  calc node.placeholders.size = words.length := (List.length_map _).symm
    _ = words.toFinset.card := (List.toFinset_card_of_nodup hnodup).symm
    _ ≤ (Finset.range (2 ^ 32)).card := Finset.card_le_card hrange
    _ = 2 ^ 32 := Finset.card_range _

theorem mem_targetsAll {nodes : List Node} {target : Placeholder} :
    target ∈ targetsAll nodes ↔ ∃ node ∈ nodes, target ∈ node.targets := by
  induction nodes with
  | nil => simp [targetsAll]
  | cons node rest ih => simp [targetsAll, ih]

/-- A placeholder that occurs below a node occurs in it. -/
theorem mem_targets_of_at? {node inner : Node} {place : List Nat} {target : Placeholder}
    (h : node.at? place = some inner) (htarget : target ∈ inner.targets) :
    target ∈ node.targets := by
  induction place generalizing node with
  | nil =>
      obtain rfl : node = inner := Option.some.inj h
      exact htarget
  | cons index rest ih =>
      obtain ⟨child, hchild, hinner⟩ := Option.bind_eq_some_iff.mp h
      have hmem : target ∈ targetsAll node.children :=
        mem_targetsAll.mpr ⟨child, List.mem_of_getElem? hchild, ih hinner⟩
      cases node with
      | element tag properties children => exact List.mem_append_right _ hmem
      | text value => simp [children, targetsAll] at hmem
      | placeholder other => simp [children, targetsAll] at hmem

end Node

end DomTemplate

import Mathlib
import DomTemplate.Proofs.Outline.Bind
import DomTemplate.Proofs.Placeholders

/-!
# The numbers in a binding stream

Keys are numbered while the stream is written.  A key keeps its number, every operation names inputs
and keys that exist, and every key is named by an operation.
-/

namespace DomTemplate

/-- An operation names one of so many inputs and of so many keys, if any. -/
def BindOp.Names (inputs keys : Nat) : BindOp → Prop
  | setNode _ => True
  | common _ input => input < inputs
  | keyed _ key input => key < keys ∧ input < inputs
  | directive input => input < inputs

theorem BindOp.Names.mono {inputs keys more : Nat} (hkeys : keys ≤ more) {op : BindOp}
    (h : op.Names inputs keys) : op.Names inputs more := by
  cases op with
  | setNode slot => trivial
  | common property input => exact h
  | keyed binding key input => exact ⟨Nat.lt_of_lt_of_le h.1 hkeys, h.2⟩
  | directive input => exact h

namespace Outline

/-! ## Keys keep their numbers -/

theorem prefix_bindProperty (keys : Registry String) (p : Property) (input : Nat) :
    keys.entries <+: (bindProperty keys p input).2.entries := by
  rw [bindProperty]
  split
  · exact List.prefix_refl _
  · exact keys.prefix_insert p.key
  · exact List.prefix_refl _

theorem prefix_bindProperties (inputs : Registry Placeholder) (keys : Registry String)
    (properties : List Property) :
    keys.entries <+: (bindProperties inputs keys properties).2.entries := by
  induction properties generalizing keys with
  | nil => exact List.prefix_refl _
  | cons p rest ih =>
      rw [bindProperties]
      split
      · exact ih keys
      · exact (prefix_bindProperty keys p _).trans (ih _)

mutual

/-- Keys that have a number keep it. -/
theorem prefix_bind (inputs : Registry Placeholder) (keys : Registry String) :
    ∀ outline : Outline, keys.entries <+: (bind inputs keys outline).2.entries
  | element tag properties marks following slot children => by
      rw [bind]
      split
      · have hown := prefix_bindProperties inputs keys properties
        exact hown.trans (prefix_bindAll inputs _ children)
      · exact prefix_bindAll inputs keys children
  | text value following slot => List.prefix_refl _
  | placeholder target => List.prefix_refl _

theorem prefix_bindAll (inputs : Registry Placeholder) (keys : Registry String) :
    ∀ outlines : List Outline, keys.entries <+: (bindAll inputs keys outlines).2.entries
  | [] => List.prefix_refl _
  | outline :: rest => by
      rw [bindAll]
      exact (prefix_bind inputs keys outline).trans (prefix_bindAll inputs _ rest)

end

/-! ## What operations name -/

theorem names_bindProperty (keys : Registry String) (p : Property) {inputs input : Nat}
    (hinput : input < inputs) :
    (bindProperty keys p input).1.Names inputs (bindProperty keys p input).2.size := by
  rw [bindProperty]
  split
  · exact hinput
  · obtain ⟨i, hi⟩ := keys.exists_index?_insert p.key
    simp only [hi, Option.getD_some]
    exact ⟨Registry.lt_size_of_index? hi, hinput⟩
  · exact hinput

theorem names_bindProperties (inputs : Registry Placeholder) (keys : Registry String)
    (properties : List Property) :
    ∀ op ∈ (bindProperties inputs keys properties).1,
      op.Names inputs.size (bindProperties inputs keys properties).2.size := by
  induction properties generalizing keys with
  | nil => simp [bindProperties]
  | cons p rest ih =>
      rw [bindProperties]
      split
      · exact ih keys
      · rename_i input hinput
        obtain ⟨target, -, hindex⟩ := Option.bind_eq_some_iff.mp hinput
        have hown := names_bindProperty keys p (Registry.lt_size_of_index? hindex)
        have hmore := (prefix_bindProperties inputs (bindProperty keys p input).2 rest).length_le
        simp only [List.forall_mem_cons]
        exact ⟨hown.mono hmore, ih _⟩

mutual

theorem names_bind (inputs : Registry Placeholder) (keys : Registry String) :
    ∀ outline : Outline, ∀ op ∈ (bind inputs keys outline).1,
      op.Names inputs.size (bind inputs keys outline).2.size
  | element tag properties marks following slot children => by
      rw [bind]
      split
      · have hown := names_bindProperties inputs keys properties
        have hmore := (prefix_bindAll inputs (bindProperties inputs keys properties).2
          children).length_le
        simp only [List.forall_mem_append]
        refine ⟨⟨?_, fun op hop => (hown op hop).mono hmore⟩, names_bindAll inputs _ children⟩
        intro op hop
        obtain ⟨own, -, rfl⟩ := List.mem_map.mp hop
        trivial
      · exact names_bindAll inputs keys children
  | text value following slot => by
      simp [bind]
  | placeholder target => by
      simp [bind]

theorem names_bindAll (inputs : Registry Placeholder) (keys : Registry String) :
    ∀ outlines : List Outline, ∀ op ∈ (bindAll inputs keys outlines).1,
      op.Names inputs.size (bindAll inputs keys outlines).2.size
  | [] => by
      simp [bindAll]
  | outline :: rest => by
      have hmore := (prefix_bindAll inputs (bind inputs keys outline).2 rest).length_le
      rw [bindAll]
      simp only [List.forall_mem_append]
      exact ⟨fun op hop => (names_bind inputs keys outline op hop).mono hmore,
        names_bindAll inputs _ rest⟩

end

/-! ## Every key is named -/

/-- An operation among some names a key. -/
def NamesKey (key : Nat) (ops : List BindOp) : Prop :=
  ∃ binding input, .keyed binding key input ∈ ops

theorem NamesKey.mono {key : Nat} {ops more : List BindOp} (h : NamesKey key ops)
    (hsubset : ops ⊆ more) : NamesKey key more := by
  obtain ⟨binding, input, hop⟩ := h
  exact ⟨binding, input, hsubset hop⟩

theorem namesKey_bindProperty {keys : Registry String} {p : Property} {input key : Nat}
    (hnew : keys.size ≤ key) (hkey : key < (bindProperty keys p input).2.size) :
    NamesKey key [(bindProperty keys p input).1] := by
  cases htarget : Target.of p.kind p.key with
  | common property =>
      simp only [bindProperty, htarget] at hkey
      omega
  | directive =>
      simp only [bindProperty, htarget] at hkey
      omega
  | keyed binding =>
      simp only [bindProperty, htarget] at hkey ⊢
      by_cases hmem : p.key ∈ keys.entries
      · rw [Registry.insert_of_mem hmem] at hkey
        omega
      · obtain ⟨hindex, hsize⟩ := Registry.index?_insert_of_notMem hmem
        have hlast : key = keys.size := by omega
        refine ⟨binding, input, ?_⟩
        rw [hindex, hlast]
        exact List.mem_singleton.mpr rfl

theorem namesKey_bindProperties {inputs : Registry Placeholder} {keys : Registry String}
    {properties : List Property} {key : Nat} (hnew : keys.size ≤ key)
    (hkey : key < (bindProperties inputs keys properties).2.size) :
    NamesKey key (bindProperties inputs keys properties).1 := by
  induction properties generalizing keys with
  | nil => exact absurd hkey (Nat.not_lt_of_le hnew)
  | cons p rest ih =>
      rw [bindProperties] at hkey ⊢
      split at hkey
      · exact ih hnew hkey
      · rename_i input hinput
        by_cases hown : key < (bindProperty keys p input).2.size
        · exact (namesKey_bindProperty hnew hown).mono (by simp)
        · exact (ih (Nat.le_of_not_lt hown) hkey).mono (List.subset_cons_self _ _)

mutual

theorem namesKey_bind {inputs : Registry Placeholder} {keys : Registry String} {key : Nat}
    (hnew : keys.size ≤ key) :
    ∀ {outline : Outline}, key < (bind inputs keys outline).2.size →
      NamesKey key (bind inputs keys outline).1
  | element tag properties marks following slot children, hkey => by
      by_cases hbound : 0 < marks.bound
      · rw [bind, if_pos hbound] at hkey ⊢
        by_cases hown : key < (bindProperties inputs keys properties).2.size
        · refine (namesKey_bindProperties hnew hown).mono fun op hop => ?_
          exact List.mem_append_left _ (List.mem_append_right _ hop)
        · exact (namesKey_bindAll (Nat.le_of_not_lt hown) hkey).mono (List.subset_append_right _ _)
      · rw [bind, if_neg hbound] at hkey ⊢
        exact namesKey_bindAll hnew hkey
  | text value following slot, hkey => absurd hkey (Nat.not_lt_of_le hnew)
  | placeholder target, hkey => absurd hkey (Nat.not_lt_of_le hnew)

theorem namesKey_bindAll {inputs : Registry Placeholder} {keys : Registry String} {key : Nat}
    (hnew : keys.size ≤ key) :
    ∀ {outlines : List Outline}, key < (bindAll inputs keys outlines).2.size →
      NamesKey key (bindAll inputs keys outlines).1
  | [], hkey => absurd hkey (Nat.not_lt_of_le hnew)
  | outline :: rest, hkey => by
      rw [bindAll] at hkey ⊢
      by_cases hown : key < (bind inputs keys outline).2.size
      · exact (namesKey_bind hnew hown).mono (List.subset_append_left _ _)
      · exact (namesKey_bindAll (Nat.le_of_not_lt hown) hkey).mono (List.subset_append_right _ _)

end

end Outline

end DomTemplate

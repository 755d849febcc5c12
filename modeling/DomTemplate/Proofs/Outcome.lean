import Mathlib

/-!
# Steps that may fail

A run of steps succeeds if each of them does.
-/

namespace DomTemplate

variable {ε α β : Type}

theorem ok_bind (a : α) (next : α → Except ε β) : (Except.ok a >>= next) = next a :=
  rfl

theorem bind_eq_ok_iff {x : Except ε α} {f : α → Except ε β} {b : β} :
    (x >>= f) = .ok b ↔ ∃ a, x = .ok a ∧ f a = .ok b := by
  cases x with
  | error e => simp [bind, Except.bind]
  | ok a => simp [bind, Except.bind]

/-- A run in two parts. -/
theorem foldlM_append_of_ok {f : β → α → Except ε β} {ops more : List α} {first middle : β}
    {last : Except ε β} (hops : ops.foldlM f first = .ok middle)
    (hmore : more.foldlM f middle = last) : (ops ++ more).foldlM f first = last := by
  rw [List.foldlM_append, hops]
  exact hmore

/-- A run that succeeds ends where the steps lead by themselves. -/
theorem foldlM_eq_foldl {f : β → α → Except ε β} {follow : β → α → β}
    (hstep : ∀ ⦃state op next⦄, f state op = .ok next → next = follow state op) {ops : List α}
    {first last : β} (h : ops.foldlM f first = .ok last) : last = ops.foldl follow first := by
  induction ops generalizing first with
  | nil => exact (Except.ok.inj h).symm
  | cons op ops ih =>
      obtain ⟨next, hnext, hrest⟩ := bind_eq_ok_iff.mp h
      rw [List.foldl_cons, ← hstep hnext]
      exact ih hrest

end DomTemplate

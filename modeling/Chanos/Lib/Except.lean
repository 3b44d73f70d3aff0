import Mathlib.Logic.Basic

/-!
# Programs that may fail

A sequence of two programs comes to an end exactly when both do, and a test of which one outcome is
an error when the test has the other outcome. A program that is run for each member of a list fails
at one of them, after it has come to an end for the members before it.
-/

namespace Chanos.Lib

open Except

variable {ε α β : Type} {x : Except ε α}

theorem ok_bind (a : α) (f : α → Except ε β) : ((ok a : Except ε α) >>= f) = f a := rfl

theorem error_bind (e : ε) (f : α → Except ε β) :
    ((error e : Except ε α) >>= f) = .error e := rfl

theorem bind_eq_ok {f : α → Except ε β} {b : β} :
    (x >>= f) = .ok b ↔ ∃ a, x = .ok a ∧ f a = .ok b := by
  constructor
  · intro h
    cases x with
    | error e => cases h
    | ok a => exact ⟨a, rfl, h⟩
  · rintro ⟨a, rfl, h⟩
    exact h

theorem ok_eq_ok {a b : α} : (ok a : Except ε α) = .ok b ↔ b = a :=
  ⟨fun h => (ok.inj h).symm, fun h => congrArg ok h.symm⟩

theorem ite_error_eq_ok {p : Prop} [Decidable p] {e : ε} {a : α} :
    (if p then .error e else x) = .ok a ↔ ¬p ∧ x = .ok a := by
  by_cases hp : p
  · rw [if_pos hp]
    constructor
    · intro h
      cases h
    · intro h
      exact absurd hp h.1
  · rw [if_neg hp, and_iff_right hp]

theorem ite_eq_ok {p : Prop} [Decidable p] {e : ε} {a : α} :
    (if p then x else .error e) = .ok a ↔ p ∧ x = .ok a := by
  rw [← ite_not, ite_error_eq_ok, not_not]

theorem foldlM_eq_error {f : α → β → Except ε α} {l : List β} {a : α} {e : ε} :
    l.foldlM f a = .error e ↔
      ∃ pre x post b, l = pre ++ x :: post ∧ pre.foldlM f a = .ok b ∧ f b x = .error e := by
  constructor
  · intro h
    induction l generalizing a with
    | nil => cases h
    | cons x l ih =>
      rw [List.foldlM_cons] at h
      cases hx : f a x with rw [hx] at h
      | error e' => exact ⟨[], x, l, a, rfl, rfl, hx.trans h⟩
      | ok b =>
        obtain ⟨pre, y, post, b', rfl, hp, hy⟩ := ih h
        refine ⟨x :: pre, y, post, b', rfl, ?_, hy⟩
        rw [List.foldlM_cons, hx]
        exact hp
  · rintro ⟨pre, x, post, b, rfl, hp, hx⟩
    rw [List.foldlM_append, hp, ok_bind, List.foldlM_cons, hx, error_bind]

/-- A program that puts the members of a list behind what it has, up to a limit. -/
theorem foldlM_push {σ : Type} {f : σ → α → Except ε σ} (set : List α → σ) {n : Nat} {e : ε}
    {k l : List α} (hl : l.length ≤ n)
    (h : ∀ l : List α, l.length ≤ n → ∀ a ∈ k,
      f (set l) a = if n ≤ l.length + 1 then .error e else .ok (set (l ++ [a]))) :
    k.foldlM f (set l) =
      if k = [] ∨ l.length + k.length < n then .ok (set (l ++ k)) else .error e := by
  induction k generalizing l with
  | nil => simp [pure, Except.pure]
  | cons a k ih =>
    rw [List.foldlM_cons, h l hl a List.mem_cons_self, List.length_cons]
    by_cases hlt : n ≤ l.length + 1
    · -- the member that reaches the limit ends the run
      rw [if_pos hlt, if_neg (by simp; omega)]
      rfl
    · have hlen : (l ++ [a]).length = l.length + 1 := List.length_append
      rw [if_neg hlt, ok_bind, ih (by omega) fun l hl b hb => h l hl b (List.mem_cons_of_mem a hb),
        hlen, List.append_assoc, List.singleton_append]
      refine if_congr ?_ rfl rfl
      cases k <;> simp <;> omega

end Chanos.Lib

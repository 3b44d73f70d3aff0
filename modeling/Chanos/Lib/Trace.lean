import Mathlib.Data.List.Basic

/-!
# Steps along a trace

A trace of a system from a state is a list of steps, each with its label and the state after it.
`Along P s l` says that `P` holds of every step of the trace `l` from `s`.
-/

namespace Chanos.Lib

variable {S A : Type*} {R P Q : S → A → S → Prop} {s : S} {l : List (A × S)} {Inv : S → Prop}

/-- `P` holds at every step of a run. -/
def Along (P : S → A → S → Prop) : S → List (A × S) → Prop
  | _, [] => True
  | s, (a, s') :: l => P s a s' ∧ Along P s' l

theorem along_congr (h : ∀ s a s', R s a s' → (P s a s' ↔ Q s a s')) (ht : Along R s l) :
    Along P s l ↔ Along Q s l := by
  induction l generalizing s with
  | nil => exact Iff.rfl
  | cons p l ih => exact and_congr (h s p.1 p.2 ht.1) (ih ht.2)

theorem along_step_iff_of_invariant
    (h : ∀ s a s', R s a s' → Inv s → (P s a s' ↔ Q s a s') ∧ (Q s a s' → Inv s'))
    (ht : Along R s l) (hs : Inv s) : Along P s l ↔ Along Q s l := by
  induction l generalizing s with
  | nil => exact Iff.rfl
  | cons p l ih =>
    obtain ⟨hg, hi⟩ := h s p.1 p.2 ht.1 hs
    constructor
    · rintro ⟨hp, hrs⟩
      have hq := hg.mp hp
      exact ⟨hq, (ih ht.2 (hi hq)).mp hrs⟩
    · rintro ⟨hq, hrs⟩
      exact ⟨hg.mpr hq, (ih ht.2 (hi hq)).mpr hrs⟩

theorem along_invariant_iff (h : ∀ s a s', R s a s' → Inv s → (Inv s' ↔ Q s a s'))
    (ht : Along R s l) (hs : Inv s) : Along (fun _ _ s' => Inv s') s l ↔ Along Q s l :=
  along_step_iff_of_invariant (fun s a s' hr hi => ⟨h s a s' hr hi, (h s a s' hr hi).mpr⟩) ht hs

theorem along_iff_of_invariant {Good : S → Prop}
    (h : ∀ s a s', R s a s' → Inv s → (Good s' ↔ Q s a s') ∧ (Q s a s' → Inv s'))
    (ht : Along R s l) (hs : Inv s) : Along (fun _ _ s' => Good s') s l ↔ Along Q s l :=
  along_step_iff_of_invariant h ht hs

theorem along_of_invariant (h : ∀ s a s', R s a s' → Inv s → P s a s' ∧ Inv s')
    (ht : Along R s l) (hs : Inv s) : Along P s l := by
  induction l generalizing s with
  | nil => trivial
  | cons p l ih =>
    obtain ⟨hp, hi⟩ := h s p.1 p.2 ht.1 hs
    exact ⟨hp, ih ht.2 hi⟩

/-- The run of `step` has a result, with the invariant in all its states and `P` at all its steps.
-/
def Keeps (step : S → A → Option S) (Inv : S → Prop) (P : S → A → S → Prop) : List A → S → Prop
  | [], s => Inv s
  | a :: as, s => Inv s ∧ ∃ s', step s a = some s' ∧ P s a s' ∧ Keeps step Inv P as s'

/-- The steps of a run of `step` meet `Q`, as far as it has results. -/
def Meets (step : S → A → Option S) (Q : S → A → Prop) : List A → S → Prop
  | [], _ => True
  | a :: as, s => Q s a ∧ ∀ s', step s a = some s' → Meets step Q as s'

theorem keeps_iff_meets {step : S → A → Option S} {Q : S → A → Prop}
    (h : ∀ s a, Inv s → ((∃ s', step s a = some s' ∧ P s a s' ∧ Inv s') ↔ Q s a)) (as : List A)
    (hs : Inv s) : Keeps step Inv P as s ↔ Meets step Q as s := by
  induction as generalizing s with
  | nil => exact iff_of_true hs trivial
  | cons a as ih =>
    have hh : ∀ {s'}, Keeps step Inv P as s' → Inv s' := by
      cases as with
      | nil => exact id
      | cons => exact And.left
    constructor
    · rintro ⟨-, s', hst, hp, hrs⟩
      refine ⟨(h s a hs).mp ⟨s', hst, hp, hh hrs⟩, fun s'' hst' => ?_⟩
      obtain rfl := Option.mem_unique hst hst'
      exact (ih (hh hrs)).mp hrs
    · rintro ⟨hq, hrs⟩
      obtain ⟨s', hst, hp, hi⟩ := (h s a hs).mpr hq
      exact ⟨hs, s', hst, hp, (ih hi).mpr (hrs s' hst)⟩

end Chanos.Lib

import Mathlib.Data.List.Sort

/-!
# Sorting a list and dropping what is repeated

A list is sorted, and then copied without the entries that are equal to the one before them. What
comes out is strictly increasing and has the members of the list, so it depends only on these
(`sortDistinct_congr`).
-/

namespace Chanos.Lib

open List

variable {α : Type} [LinearOrder α] {l : List α}

def dropRepeats (prev : α) : List α → List α
  | [] => []
  | v :: l => if v = prev then dropRepeats v l else v :: dropRepeats v l

def sortDistinct (l : List α) : List α :=
  match l.insertionSort (· ≤ ·) with
  | [] => []
  | v :: vs => v :: dropRepeats v vs

theorem mem_dropRepeats {prev v : α} : v ∈ prev :: dropRepeats prev l ↔ v ∈ prev :: l := by
  induction l generalizing prev with
  | nil => rfl
  | cons u l ih =>
    unfold dropRepeats
    split_ifs with hu
    · subst hu
      rw [ih, mem_cons, mem_cons, mem_cons, or_self_left]
    · rw [mem_cons, ih, ← mem_cons]

theorem pairwise_dropRepeats {prev : α} (h : (prev :: l).Pairwise (· ≤ ·)) :
    (prev :: dropRepeats prev l).Pairwise (· < ·) := by
  induction l generalizing prev with
  | nil => exact pairwise_singleton _ _
  | cons u l ih =>
    unfold dropRepeats
    split_ifs with hu
    · subst hu
      exact ih h.of_cons
    refine pairwise_cons.mpr ⟨?_, ih h.of_cons⟩
    intro v hv
    have hle : u ≤ v := by
      rcases mem_cons.mp (mem_dropRepeats.mp hv) with rfl | hv
      · exact le_rfl
      · exact rel_of_pairwise_cons h.of_cons hv
    have hlt : prev < u :=
      lt_of_le_of_ne (rel_of_pairwise_cons h mem_cons_self) fun heq => hu heq.symm
    exact lt_of_lt_of_le hlt hle

theorem mem_sortDistinct {v : α} : v ∈ sortDistinct l ↔ v ∈ l := by
  have hp : v ∈ l.insertionSort (· ≤ ·) ↔ v ∈ l := mem_insertionSort (· ≤ ·)
  rw [← hp, sortDistinct]
  cases l.insertionSort (· ≤ ·) with
  | nil => rfl
  | cons u us => exact mem_dropRepeats

theorem pairwise_sortDistinct (l : List α) : (sortDistinct l).Pairwise (· < ·) := by
  have hsr : (l.insertionSort (· ≤ ·)).Pairwise (· ≤ ·) := pairwise_insertionSort _ l
  rw [sortDistinct]
  cases hl : l.insertionSort (· ≤ ·) with
  | nil => exact List.Pairwise.nil
  | cons u us => exact pairwise_dropRepeats (hl ▸ hsr)

theorem sortDistinct_congr {l l' : List α} (h : ∀ v, v ∈ l ↔ v ∈ l') :
    sortDistinct l = sortDistinct l' := by
  have hl := pairwise_sortDistinct l
  have hl' := pairwise_sortDistinct l'
  have hp : (sortDistinct l).Perm (sortDistinct l') := by
    rw [perm_ext_iff_of_nodup (hl.imp ne_of_lt) (hl'.imp ne_of_lt)]
    intro v
    rw [mem_sortDistinct, mem_sortDistinct, h]
  exact List.Perm.eq_of_pairwise (fun _ _ _ _ h₁ h₂ => absurd h₁ (lt_asymm h₂)) hl hl' hp

end Chanos.Lib

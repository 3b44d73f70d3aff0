import Mathlib.Tactic

/-!
# Sorted free lists

An allocator keeps the identifiers that are not in use in a list. `FreeList U used l` says that `l`
is the right list: strictly increasing, with exactly the unused members of the finite set `U` in it.
-/

namespace Chanos.Lib

open List

variable {α : Type*} [LinearOrder α]

structure FreeList (U : Finset α) (used : α → Prop) (l : List α) : Prop where
  sorted : l.SortedLT
  mem_iff : ∀ a, a ∈ l ↔ a ∈ U ∧ ¬ used a

theorem sortedLT_orderedInsert {l : List α} (h : l.SortedLT) {a : α} (ha : a ∉ l) :
    (l.orderedInsert (· < ·) a).SortedLT := by
  rw [sortedLT_iff_pairwise] at h ⊢
  induction l with
  | nil => exact pairwise_singleton _ a
  | cons b l ih =>
    obtain ⟨hb, hl⟩ := pairwise_cons.mp h
    rw [mem_cons, not_or] at ha
    rw [orderedInsert_cons]
    split_ifs with hab
    · -- The new identifier goes first, below `b` and so below the rest.
      refine pairwise_cons.mpr ⟨?_, h⟩
      intro c hc
      rcases mem_cons.mp hc with rfl | hc
      · exact hab
      · exact hab.trans (hb c hc)
    · -- It goes into the tail, and `b` stays below everything there.
      have hba : b < a := lt_of_le_of_ne (not_lt.mp hab) (Ne.symm ha.1)
      refine pairwise_cons.mpr ⟨?_, ih hl ha.2⟩
      intro c hc
      rcases (mem_orderedInsert (· < ·)).mp hc with rfl | hc
      · exact hba
      · exact hb c hc

namespace FreeList

variable {U : Finset α} {used used' : α → Prop} {l : List α}

section

variable (h : FreeList U used l)
include h

theorem nodup : l.Nodup := h.sorted.nodup

theorem congr (hu : ∀ a ∈ U, used a ↔ used' a) : FreeList U used' l where
  sorted := h.sorted
  mem_iff a := by
    rw [h.mem_iff]
    exact and_congr_right fun ha => not_congr (hu a ha)

theorem erase (a : α) :
    FreeList U (fun b => used b ∨ b = a) (l.erase a) where
  sorted := (sortedLT_iff_pairwise.mp h.sorted |>.sublist erase_sublist).sortedLT
  mem_iff b := by
    rw [h.nodup.mem_erase_iff, h.mem_iff]
    tauto

theorem insert {a : α} (ha : a ∈ U) (hu : used a) :
    FreeList U (fun b => used b ∧ b ≠ a) (l.orderedInsert (· < ·) a) where
  sorted := sortedLT_orderedInsert h.sorted fun hm => ((h.mem_iff a).mp hm).2 hu
  mem_iff b := by
    rw [mem_orderedInsert, h.mem_iff]
    constructor
    · rintro (rfl | ⟨hb, hn⟩)
      · exact ⟨ha, fun hc => hc.2 rfl⟩
      · exact ⟨hb, fun hc => hn hc.1⟩
    · rintro ⟨hb, hn⟩
      by_cases hba : b = a
      · exact Or.inl hba
      · exact Or.inr ⟨hb, fun hc => hn ⟨hc, hba⟩⟩

theorem length_add_card [DecidablePred used] :
    l.length + (U.filter used).card = U.card := by
  have hfr : l.toFinset = U.filter (fun a => ¬ used a) := by
    ext a
    rw [mem_toFinset, h.mem_iff, Finset.mem_filter]
  rw [← toFinset_card_of_nodup h.nodup, hfr, add_comm]
  exact Finset.card_filter_add_card_filter_not used

end

end FreeList

end Chanos.Lib

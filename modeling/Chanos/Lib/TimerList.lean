import Mathlib.Data.List.Sort

/-!
# Lists of timers

A list of timers in the order of their deadlines, with at most one for each key. Arming the timer of
a key takes the one that it has out of the list and puts the new one before the first that runs out
later; cancelling only takes it out.
-/

namespace Chanos.Lib

open List

structure Timer (τ κ : Type*) where
  deadline : τ
  key : κ
  deriving DecidableEq

namespace TimerList

variable {τ κ : Type*}

section

variable [LinearOrder τ] {l : List (Timer τ κ)} {n : Timer τ κ}

structure Valid (l : List (Timer τ κ)) : Prop where
  sorted : l.Pairwise fun a b => a.deadline ≤ b.deadline
  nodup : (l.map Timer.key).Nodup

theorem Valid.nil : Valid ([] : List (Timer τ κ)) := ⟨List.Pairwise.nil, nodup_nil⟩

theorem Valid.head_le (h : Valid (n :: l)) {n' : Timer τ κ} (hn : n' ∈ n :: l) :
    n.deadline ≤ n'.deadline := by
  rcases mem_cons.mp hn with rfl | hn
  · exact le_rfl
  · exact (pairwise_cons.mp h.sorted).1 n' hn

theorem sorted_orderedInsert (n : Timer τ κ) (h : l.Pairwise fun a b => a.deadline ≤ b.deadline) :
    (l.orderedInsert (fun a b => a.deadline < b.deadline) n).Pairwise
      fun a b => a.deadline ≤ b.deadline := by
  induction l with
  | nil => exact pairwise_singleton _ _
  | cons a l ih =>
    rw [pairwise_cons] at h
    rw [orderedInsert_cons]
    split_ifs with hlt
    · refine pairwise_cons.mpr ⟨fun b hb => ?_, pairwise_cons.mpr h⟩
      rcases mem_cons.mp hb with rfl | hb
      · exact hlt.le
      · exact hlt.le.trans (h.1 b hb)
    · refine pairwise_cons.mpr ⟨fun b hb => ?_, ih h.2⟩
      rcases (mem_orderedInsert _).mp hb with rfl | hb
      · exact not_lt.mp hlt
      · exact h.1 b hb

end

section

variable [DecidableEq κ] {l : List (Timer τ κ)} {k k' : κ} {t : τ}

def deadlines (k : κ) (l : List (Timer τ κ)) : List τ :=
  (l.filter fun n => n.key = k).map Timer.deadline

def cancel (k : κ) (l : List (Timer τ κ)) : List (Timer τ κ) := l.eraseP fun n => n.key = k

theorem mem_deadlines : t ∈ deadlines k l ↔ (⟨t, k⟩ : Timer τ κ) ∈ l := by
  constructor
  · intro ht
    obtain ⟨n, hn, rfl⟩ := mem_map.mp ht
    obtain ⟨hme, hke⟩ := mem_filter.mp hn
    obtain rfl := of_decide_eq_true hke
    exact hme
  · intro hn
    exact mem_map.mpr ⟨_, mem_filter.mpr ⟨hn, decide_eq_true rfl⟩, rfl⟩

theorem deadlines_cancel_of_ne (h : k' ≠ k) : deadlines k' (cancel k l) = deadlines k' l := by
  unfold deadlines cancel
  induction l with
  | nil => rfl
  | cons a l ih =>
    by_cases ha : a.key = k
    · have hne : ¬a.key = k' := fun ha' => h (ha'.symm.trans ha)
      rw [eraseP_cons_of_pos (by simpa using ha), filter_cons_of_neg (by simpa using hne)]
    · rw [eraseP_cons_of_neg (by simpa using ha), filter_cons, filter_cons]
      split_ifs with hke
      · rw [map_cons, map_cons, ih]
      · exact ih

theorem deadlines_cancel_self (h : (l.map Timer.key).Nodup) : deadlines k (cancel k l) = [] := by
  unfold deadlines cancel
  rw [map_eq_nil_iff]
  induction l with
  | nil => rfl
  | cons a l ih =>
    rw [map_cons, nodup_cons] at h
    by_cases ha : a.key = k
    · rw [eraseP_cons_of_pos (by simpa using ha), filter_eq_nil_iff]
      intro n hn hke
      -- Another timer of the key would make two.
      refine h.1 ?_
      rw [ha, ← of_decide_eq_true hke]
      exact mem_map_of_mem hn
    · rw [eraseP_cons_of_neg (by simpa using ha), filter_cons_of_neg (by simpa using ha)]
      exact ih h.2

end

section

variable [LinearOrder τ] [DecidableEq κ] {l : List (Timer τ κ)} {k k' : κ} {t : τ}

def arm (t : τ) (k : κ) (l : List (Timer τ κ)) : List (Timer τ κ) :=
  (cancel k l).orderedInsert (fun a b => a.deadline < b.deadline) ⟨t, k⟩

theorem Valid.deadlines_cancel (h : Valid l) :
    deadlines k' (cancel k l) = if k' = k then [] else deadlines k' l := by
  split_ifs with hk
  · rw [hk]
    exact deadlines_cancel_self h.nodup
  · exact deadlines_cancel_of_ne hk

theorem Valid.deadlines_arm (h : Valid l) :
    deadlines k' (arm t k l) = if k' = k then [t] else deadlines k' l := by
  -- The list is cut in two where the timer goes.
  have hcu : ∀ p : Timer τ κ → Bool, ∃ front back,
      front ++ back = cancel k l ∧ (arm t k l).filter p =
        front.filter p ++ ((⟨t, k⟩ : Timer τ κ) :: back).filter p := by
    intro p
    unfold arm
    rw [orderedInsert_eq_take_drop, filter_append]
    exact ⟨_, _, takeWhile_append_dropWhile, rfl⟩
  obtain ⟨front, back, hf, ha⟩ := hcu fun n => n.key = k'
  have hc : deadlines k' (cancel k l) = if k' = k then [] else deadlines k' l :=
    h.deadlines_cancel
  rw [← hf] at hc
  unfold deadlines at hc ⊢
  rw [ha]
  rw [filter_append] at hc
  split_ifs with hk
  · rw [if_pos hk, map_eq_nil_iff, append_eq_nil_iff] at hc
    rw [hc.1, filter_cons_of_pos (by simpa using hk.symm), hc.2]
    rfl
  · rw [if_neg hk] at hc
    rw [filter_cons_of_neg (by simpa using fun h => hk h.symm), hc]

theorem Valid.cancel (h : Valid l) (k : κ) : Valid (cancel k l) :=
  ⟨h.sorted.sublist eraseP_sublist, h.nodup.sublist (eraseP_sublist.map _)⟩

theorem Valid.arm (h : Valid l) (t : τ) (k : κ) : Valid (arm t k l) := by
  refine ⟨sorted_orderedInsert _ (h.cancel k).sorted, ?_⟩
  have hp := (perm_orderedInsert (fun a b : Timer τ κ => a.deadline < b.deadline) ⟨t, k⟩
    (TimerList.cancel k l)).map Timer.key
  refine hp.nodup_iff.mpr (nodup_cons.mpr ⟨fun hme => ?_, (h.cancel k).nodup⟩)
  obtain ⟨⟨t', k'⟩, hn, rfl⟩ := mem_map.mp hme
  have hd := mem_deadlines.mpr hn
  rw [deadlines_cancel_self h.nodup] at hd
  exact not_mem_nil hd

end

end TimerList

end Chanos.Lib

import Mathlib.Order.Basic
import Mathlib.Data.List.Basic
import Mathlib.Data.List.Pairwise

/-!
# Runs of numbers that follow each other

A set of numbers is the union of its maximal ranges: no two of them touch, and in increasing order
there is only one list of them (`MaximalRanges.unique`). `runs` finds them in a sorted list, going
through it once with the range that is being extended (`maximalRanges_runs`).
-/

namespace Chanos.Lib

open List
variable {l : List ℕ}

structure MaximalRanges (S : ℕ → Prop) (rs : List (ℕ × ℕ)) : Prop where
  ordered : ∀ r ∈ rs, r.1 ≤ r.2
  apart : rs.Pairwise fun r r' => r.2 + 1 < r'.1
  covers : ∀ v, S v ↔ ∃ r ∈ rs, r.1 ≤ v ∧ v ≤ r.2

def runsFrom (start stop : ℕ) : List ℕ → List (ℕ × ℕ)
  | [] => [(start, stop)]
  | v :: l => if stop + 1 < v then (start, stop) :: runsFrom v v l else runsFrom start (stop + 1) l

def runs : List ℕ → List (ℕ × ℕ)
  | [] => []
  | v :: l => runsFrom v v l

theorem runsFrom_ne_nil (start stop : ℕ) (l : List ℕ) : runsFrom start stop l ≠ [] := by
  induction l generalizing start stop with
  | nil => exact cons_ne_nil _ _
  | cons v l ih =>
    unfold runsFrom
    split_ifs
    · exact cons_ne_nil _ _
    · exact ih start (stop + 1)

section

variable {S : ℕ → Prop} {rs rs' : List (ℕ × ℕ)}

theorem MaximalRanges.mem_start (h : MaximalRanges S rs) {r : ℕ × ℕ} (hr : r ∈ rs) : S r.1 :=
  (h.covers r.1).mpr ⟨r, hr, Nat.le_refl _, h.ordered r hr⟩

theorem MaximalRanges.eq_nil_iff (h : MaximalRanges S rs) : rs = [] ↔ ∀ v, ¬S v := by
  constructor
  · rintro rfl v hv
    obtain ⟨r, hr, -⟩ := (h.covers v).mp hv
    exact not_mem_nil hr
  · intro he
    refine eq_nil_iff_forall_not_mem.mpr fun r hr => ?_
    exact he r.1 (h.mem_start hr)

theorem MaximalRanges.head_le {r r' : ℕ × ℕ} (h : MaximalRanges S (r :: rs))
    (h' : MaximalRanges S (r' :: rs')) : r'.1 ≤ r.1 ∧ (r.1 = r'.1 → r'.2 ≤ r.2) := by
  have ha : ∀ q ∈ rs, r.2 + 1 < q.1 := (pairwise_cons.mp h.apart).1
  have ha' : ∀ q ∈ rs', r'.2 + 1 < q.1 := (pairwise_cons.mp h'.apart).1
  have hr : r.1 ≤ r.2 := h.ordered r mem_cons_self
  have hr' : r'.1 ≤ r'.2 := h'.ordered r' mem_cons_self
  constructor
  · obtain ⟨q, hq, hle, -⟩ := (h'.covers r.1).mp (h.mem_start mem_cons_self)
    rcases mem_cons.mp hq with rfl | hq
    · exact hle
    · have := ha' q hq
      omega
  · intro heq
    by_contra hlt
    -- then the number behind the range `r` is in the set, and in no range of the first choice
    have hme : S (r.2 + 1) := (h'.covers _).mpr ⟨r', mem_cons_self, by omega, by omega⟩
    obtain ⟨q, hq, hlo, hh⟩ := (h.covers _).mp hme
    rcases mem_cons.mp hq with rfl | hq
    · omega
    · have := ha q hq
      omega

theorem MaximalRanges.tail {r : ℕ × ℕ} (h : MaximalRanges S (r :: rs)) :
    MaximalRanges (fun v => S v ∧ r.2 < v) rs where
  ordered := fun q hq => h.ordered q (mem_cons_of_mem r hq)
  apart := h.apart.of_cons
  covers := by
    have ha : ∀ q ∈ rs, r.2 + 1 < q.1 := (pairwise_cons.mp h.apart).1
    intro v
    rw [h.covers]
    constructor
    · rintro ⟨⟨q, hq, hlo, hh⟩, hlt⟩
      rcases mem_cons.mp hq with rfl | hq
      · omega
      · exact ⟨q, hq, hlo, hh⟩
    · rintro ⟨q, hq, hlo, hh⟩
      have := ha q hq
      exact ⟨⟨q, mem_cons_of_mem r hq, hlo, hh⟩, by omega⟩

theorem MaximalRanges.unique (h : MaximalRanges S rs) (h' : MaximalRanges S rs') : rs = rs' := by
  induction rs generalizing S rs' with
  | nil => exact (h'.eq_nil_iff.mpr (h.eq_nil_iff.mp rfl)).symm
  | cons r rs ih =>
    cases rs' with
    | nil =>
      have hn := h.eq_nil_iff.mpr (h'.eq_nil_iff.mp rfl)
      exact absurd hn (cons_ne_nil r rs)
    | cons r' rs' =>
      have hf : r.1 = r'.1 := Nat.le_antisymm (h'.head_le h).1 (h.head_le h').1
      have hsn : r.2 = r'.2 :=
        Nat.le_antisymm ((h'.head_le h).2 hf.symm) ((h.head_le h').2 hf)
      obtain rfl : r = r' := Prod.ext hf hsn
      rw [ih h.tail h'.tail]

end

theorem flatMap_runsFrom {start stop : ℕ} (hle : start ≤ stop) (h : (stop :: l).Pairwise (· < ·)) :
    (runsFrom start stop l).flatMap (fun r => range' r.1 (r.2 + 1 - r.1)) =
      range' start (stop + 1 - start) ++ l := by
  induction l generalizing start stop with
  | nil => simp [runsFrom]
  | cons u l ih =>
    obtain ⟨hgt, ht⟩ := pairwise_cons.mp h
    have hsp : stop < u := hgt u mem_cons_self
    unfold runsFrom
    split_ifs with hg
    · rw [flatMap_cons, ih (Nat.le_refl u) ht, Nat.add_sub_cancel_left]
      rfl
    have hn : u = stop + 1 := by omega
    subst hn
    have hlen : stop + 1 + 1 - start = (stop + 1 - start) + 1 := by omega
    have hla : start + (stop + 1 - start) = stop + 1 := by omega
    rw [ih (by omega) ht, hlen, range'_1_concat, hla, append_assoc]
    rfl

theorem flatMap_runs (h : l.Pairwise (· < ·)) :
    (runs l).flatMap (fun r => range' r.1 (r.2 + 1 - r.1)) = l := by
  cases l with
  | nil => rfl
  | cons u l =>
    rw [runs, flatMap_runsFrom (Nat.le_refl u) h, Nat.add_sub_cancel_left]
    rfl

theorem runsFrom_apart {start stop : ℕ} (hle : start ≤ stop) (h : (stop :: l).Pairwise (· < ·)) :
    (∀ r ∈ runsFrom start stop l, start ≤ r.1 ∧ r.1 ≤ r.2) ∧
      (runsFrom start stop l).Pairwise fun r r' => r.2 + 1 < r'.1 := by
  induction l generalizing start stop with
  | nil => simp [runsFrom, hle]
  | cons u l ih =>
    obtain ⟨hgt, ht⟩ := pairwise_cons.mp h
    have hsp : stop < u := hgt u mem_cons_self
    unfold runsFrom
    split_ifs with hg
    · -- a new run begins behind a gap
      obtain ⟨ho, ha⟩ := ih (Nat.le_refl u) ht
      refine ⟨forall_mem_cons.mpr ⟨⟨Nat.le_refl _, hle⟩, fun r hr => ?_⟩,
        pairwise_cons.mpr ⟨fun r hr => Nat.lt_of_lt_of_le hg (ho r hr).1, ha⟩⟩
      have := ho r hr
      omega
    · have hnx : u = stop + 1 := by omega
      exact ih (by omega) (hnx ▸ ht)

theorem maximalRanges_runs (h : l.Pairwise (· < ·)) : MaximalRanges (· ∈ l) (runs l) := by
  have hc (v : ℕ) : v ∈ l ↔ ∃ r ∈ runs l, r.1 ≤ v ∧ v ≤ r.2 := by
    have hr (a b : ℕ) : v ∈ range' a (b + 1 - a) ↔ a ≤ v ∧ v ≤ b := by
      rw [mem_range'_1]
      omega
    conv_lhs => rw [← flatMap_runs h, mem_flatMap]
    simp only [hr]
  cases l with
  | nil => exact ⟨fun r hr => absurd hr not_mem_nil, .nil, hc⟩
  | cons u l =>
    obtain ⟨ho, ha⟩ := runsFrom_apart (Nat.le_refl u) h
    exact ⟨fun r hr => (ho r hr).2, ha, hc⟩

section

variable {S : ℕ → Prop} {rs : List (ℕ × ℕ)} (h : MaximalRanges S rs)
include h

theorem MaximalRanges.apart_of_ne
    {r r' : ℕ × ℕ} (hr : r ∈ rs) (hr' : r' ∈ rs) (hne : r ≠ r') :
    r.2 + 1 < r'.1 ∨ r'.2 + 1 < r.1 := by
  have hsy : Std.Symm fun r r' : ℕ × ℕ => r.2 + 1 < r'.1 ∨ r'.2 + 1 < r.1 := ⟨fun _ _ => Or.symm⟩
  have hp : rs.Pairwise fun r r' => r.2 + 1 < r'.1 ∨ r'.2 + 1 < r.1 := h.apart.imp Or.inl
  exact hp.forall hr hr' hne

theorem MaximalRanges.mem_single_iff
    {v : ℕ} : (v + 1, v + 1) ∈ rs ↔ ¬S v ∧ S (v + 1) ∧ ¬S (v + 2) := by
  constructor
  · intro hme
    have ho : ∀ u, S u → u = v + 1 ∨ v + 2 < u ∨ u < v := by
      intro u hu
      obtain ⟨r, hr, hlo, hh⟩ := (h.covers u).mp hu
      by_cases heq : r = (v + 1, v + 1)
      · subst heq
        left
        change v + 1 ≤ u at hlo
        change u ≤ v + 1 at hh
        omega
      · rcases h.apart_of_ne hr hme heq with hlt | hlt
        · change r.2 + 1 < v + 1 at hlt
          omega
        · change v + 1 + 1 < r.1 at hlt
          omega
    refine ⟨fun hv => ?_, h.mem_start hme, fun hv => ?_⟩
    all_goals
      have := ho _ hv
      omega
  · rintro ⟨hb, hme, ha⟩
    obtain ⟨r, hr, hlo, hh⟩ := (h.covers _).mp hme
    have hf : r.1 = v + 1 := by
      by_contra hne
      exact hb ((h.covers v).mpr ⟨r, hr, by omega, by omega⟩)
    have hsn : r.2 = v + 1 := by
      by_contra hne
      exact ha ((h.covers _).mpr ⟨r, hr, by omega, by omega⟩)
    have heq : r = (v + 1, v + 1) := Prod.ext hf hsn
    exact heq ▸ hr

end

end Chanos.Lib

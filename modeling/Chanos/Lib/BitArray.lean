import Mathlib.Tactic

/-!
# Arrays of bits

A list of words of `w` bits is an array of bits, the lowest bit of the first word first. A search
for the next position with a property is described by `IsNext`, and a loop that goes from one such
position to the next meets them all, in their order (`filter_range'_of_isNext`). The lowest bit of
a word is described by `Lowest`.
-/

namespace Chanos.Lib

open List Nat

/-- `r` is the first position from `start` on with a property, or `stop` when there is none before
it. -/
def IsNext (P : ℕ → Prop) (start stop r : ℕ) : Prop :=
  (∀ k, start ≤ k → k < r → ¬P k) ∧ (r = stop ∨ start ≤ r ∧ r < stop ∧ P r)

section

variable {P : ℕ → Prop} {start mid stop r r' : ℕ}

theorem IsNext.skip (h : IsNext P mid stop r) (hle : start ≤ mid)
    (hno : ∀ k, start ≤ k → k < mid → ¬P k) : IsNext P start stop r := by
  refine ⟨fun k hk hr hP => ?_, h.2.imp_right fun hf => ⟨hle.trans hf.1, hf.2⟩⟩
  rcases lt_or_ge k mid with hmi | hmi
  · exact hno k hk hmi hP
  · exact h.1 k hmi hr hP

theorem isNext_stop (hno : ∀ k, start ≤ k → k < stop → ¬P k) : IsNext P start stop stop :=
  ⟨hno, .inl rfl⟩

theorem isNext_found (hno : ∀ k, start ≤ k → k < r → ¬P k) (hst : start ≤ r) (hsp : r < stop)
    (hP : P r) : IsNext P start stop r :=
  ⟨hno, .inr ⟨hst, hsp, hP⟩⟩

theorem IsNext.shift {d : ℕ} (h : IsNext (fun k => P (d + k)) start stop r) :
    IsNext P (d + start) (d + stop) (d + r) := by
  refine ⟨fun k hk hr hP => ?_, ?_⟩
  · refine h.1 (k - d) (by omega) (by omega) ?_
    have hd : d + (k - d) = k := by omega
    change P (d + (k - d))
    rwa [hd]
  · rcases h.2 with h | ⟨hst, hsp, hP⟩
    · exact .inl (congrArg _ h)
    · exact .inr ⟨by omega, by omega, hP⟩

theorem IsNext.le (h : IsNext P start stop r) : r ≤ stop := by
  rcases h.2 with h | h
  · exact h.le
  · exact h.2.1.le

theorem IsNext.congr {Q : ℕ → Prop} (h : IsNext P start stop r)
    (hPQ : ∀ k, start ≤ k → k < stop → (P k ↔ Q k)) : IsNext Q start stop r := by
  have hle := h.le
  refine ⟨fun k hk hr hQ => h.1 k hk hr ((hPQ k hk (by omega)).mpr hQ), ?_⟩
  exact h.2.imp_right fun hf =>
    ⟨hf.1, hf.2.1, (hPQ r hf.1 hf.2.1).mp hf.2.2⟩

theorem filter_range'_of_isNext [DecidablePred P] (h : IsNext P start stop r) :
    (range' start (stop - start)).filter (P ·) =
      if r < stop then r :: (range' (r + 1) (stop - (r + 1))).filter (P ·) else [] := by
  have hb : (range' start (r - start)).filter (P ·) = [] := by
    refine filter_eq_nil_iff.mpr fun k hk hP => ?_
    have hk := mem_range'_1.mp hk
    exact h.1 k hk.1 (by omega) (of_decide_eq_true hP)
  split
  next hlt =>
    have hf := h.2.resolve_left hlt.ne
    -- The positions before the next one, the next one, and the positions after it.
    have hsp : range' start (stop - start) =
        range' start (r - start) ++ r :: range' (r + 1) (stop - (r + 1)) := by
      have hc : r :: range' (r + 1) (stop - (r + 1)) = range' r (stop - r) := by
        rw [← range'_succ]
        congr 1
        omega
      have happ : range' start (r - start) ++ range' (start + 1 * (r - start)) (stop - r) =
          range' start (r - start + (stop - r)) := range'_append
      rw [Nat.one_mul, Nat.add_sub_cancel' hf.1] at happ
      rw [hc, happ]
      congr 1
      omega
    rw [hsp, filter_append, hb, nil_append, filter_cons, if_pos (decide_eq_true hf.2.2)]
  next hge => rwa [h.2.resolve_right fun hf => hge hf.2.1] at hb

theorem IsNext.of_le (h : IsNext (fun k => start ≤ k ∧ P k) 0 stop r) : IsNext P start stop r :=
  ⟨fun k hk hr hP => h.1 k (zero_le _) hr ⟨hk, hP⟩,
    h.2.imp_right fun hf => ⟨hf.2.2.1, hf.2.1, hf.2.2.2⟩⟩

end

section

variable {w : ℕ}

def Lowest (x : BitVec w) (n : ℕ) : Prop :=
  x.getLsbD n = true ∧ ∀ m < n, x.getLsbD m = false

theorem exists_getLsbD {x : BitVec w} (h : x ≠ 0#w) : ∃ n < w, x.getLsbD n = true := by
  by_contra hno
  push Not at hno
  refine h (BitVec.zero_iff_eq_false.mpr fun i => ?_)
  rcases lt_or_ge i w with hi | hi
  · exact Bool.eq_false_iff.mpr (hno i hi)
  · exact BitVec.getLsbD_of_ge x i hi

theorem and_low_eq_zero_iff {x : BitVec w} {k : ℕ} (hk : k ≤ w) :
    x &&& BitVec.ofNat w (2 ^ k - 1) = 0#w ↔ ∀ m < k, x.getLsbD m = false := by
  have hma : ∀ m < w, (x &&& BitVec.ofNat w (2 ^ k - 1)).getLsbD m =
      (x.getLsbD m && decide (m < k)) := fun m hm => by
    rw [BitVec.getLsbD_and, BitVec.getLsbD_ofNat, testBit_two_pow_sub_one, decide_eq_true hm,
      Bool.true_and]
  rw [BitVec.zero_iff_eq_false]
  constructor
  · intro h m hm
    have := h m
    rwa [hma m (by omega), decide_eq_true hm, Bool.and_true] at this
  · intro h m
    rcases lt_or_ge m w with hw | hw
    · rw [hma m hw]
      rcases lt_or_ge m k with hlt | hge
      · rw [h m hlt, Bool.false_and]
      · rw [decide_eq_false (not_lt.mpr hge), Bool.and_false]
    · exact BitVec.getLsbD_of_ge _ m hw

end

section

variable {w : ℕ}

def bitOf (a : List (BitVec w)) (i : ℕ) : Bool := (a.getD (i / w) 0#w).getLsbD (i % w)

theorem bitOf_cons_of_lt (x : BitVec w) (a : List (BitVec w)) {i : ℕ} (h : i < w) :
    bitOf (x :: a) i = x.getLsbD i := by
  unfold bitOf
  rw [div_eq_of_lt h, mod_eq_of_lt h, getD_cons_zero]

theorem bitOf_cons_add (hw : 0 < w) (x : BitVec w) (a : List (BitVec w)) (i : ℕ) :
    bitOf (x :: a) (w + i) = bitOf a i := by
  unfold bitOf
  rw [add_div_left i hw, add_mod_left, getD_cons_succ]

theorem bitOf_drop (hw : 0 < w) (a : List (BitVec w)) (j i : ℕ) :
    bitOf (a.drop j) i = bitOf a (w * j + i) := by
  unfold bitOf
  rw [mul_add_div hw, mul_add_mod, getD_eq_getElem?_getD, getElem?_drop, ← getD_eq_getElem?_getD]

theorem bitOf_map_not {a : List (BitVec w)} {i : ℕ} (h : i < w * a.length) :
    bitOf (a.map (~~~·)) i = !bitOf a i := by
  have hw : 0 < w := pos_of_ne_zero fun h0 => by simp [h0] at h
  have hi : i / w < a.length := Nat.div_lt_of_lt_mul h
  unfold bitOf
  rw [getD_eq_getElem?_getD, getD_eq_getElem?_getD, getElem?_map,
    getElem?_eq_getElem hi, Option.map_some, Option.getD_some, Option.getD_some,
    BitVec.getLsbD_not, decide_eq_true (mod_lt i hw), Bool.true_and]

end

end Chanos.Lib

import Mathlib.RingTheory.Coprime.Lemmas
import Mathlib.Tactic.Linarith

/-!
# Countdowns that reload

A countdown is a number that each turn takes down by one, and that a turn which finds it at zero
first sets back to its timer. Started at the timer, it is at zero before turn `t` exactly if `t` is
a positive multiple of the timer (`iterate_countdown_eq_zero_iff`).
-/

namespace Chanos.Lib

def countdown (timer c : ℤ) : ℤ := (if c = 0 then timer else c) - 1

variable {timer : ℤ}

theorem countdown_of_ne {c : ℤ} (h : c ≠ 0) : countdown timer c = c - 1 := by
  rw [countdown, if_neg h]

theorem iterate_countdown_spec (h : 1 ≤ timer) (t : ℕ) :
    timer ∣ (countdown timer)^[t] timer + t ∧ 0 ≤ (countdown timer)^[t] timer ∧
      (t ≠ 0 → (countdown timer)^[t] timer < timer) ∧ (t = 0 → (countdown timer)^[t] timer = timer) := by
  induction t with
  | zero => exact ⟨⟨1, by simp⟩, by simpa using (by omega : 0 ≤ timer), by simp, by simp⟩
  | succ t ih =>
    obtain ⟨⟨q, hq⟩, hn, hlt, hz⟩ := ih
    rw [Function.iterate_succ_apply']
    have hle : (countdown timer)^[t] timer ≤ timer := by
      rcases Nat.eq_zero_or_pos t with ht | ht
      · exact (hz ht).le
      · exact (hlt ht.ne').le
    generalize (countdown timer)^[t] timer = c at *
    unfold countdown
    split
    · next hc =>
      -- the reload adds one timer to the sum
      refine ⟨⟨q + 1, ?_⟩, by omega, fun _ => by omega, fun ht => absurd ht (Nat.succ_ne_zero t)⟩
      have hsu : timer * (q + 1) = timer * q + timer := by ring
      omega
    · refine ⟨⟨q, ?_⟩, by omega, fun _ => by omega, fun ht => absurd ht (Nat.succ_ne_zero t)⟩
      omega

theorem iterate_countdown_eq_zero_iff (h : 1 ≤ timer) (t : ℕ) :
    (countdown timer)^[t] timer = 0 ↔ 0 < t ∧ timer ∣ t := by
  obtain ⟨hd, hn, hlt, hz⟩ := iterate_countdown_spec h t
  constructor
  · intro hc
    refine ⟨Nat.pos_of_ne_zero fun ht => ?_, by rwa [hc, zero_add] at hd⟩
    have htm := hz ht
    omega
  · rintro ⟨ht, htd⟩
    have hcd : timer ∣ (countdown timer)^[t] timer := (Int.dvd_add_left htd).mp hd
    exact Int.eq_zero_of_dvd_of_nonneg_of_lt hn (hlt ht.ne') hcd

theorem iterate_countdown_lt_zero (h : timer ≤ 0) (t : ℕ) :
    (countdown timer)^[t + 1] timer < 0 := by
  induction t with
  | zero =>
    have hr : (if timer = 0 then timer else timer) = timer := ite_self timer
    simp only [Nat.zero_add, Function.iterate_one, countdown, hr]
    omega
  | succ t ih =>
    rw [Function.iterate_succ_apply', countdown_of_ne ih.ne]
    omega

theorem isCoprime_of_dvd_of_dvd_mul {m : ℤ} (ht : 1 ≤ timer)
    (h : ∀ n : ℕ, 0 < n → timer ∣ m * n → timer ∣ n) : IsCoprime m timer := by
  rw [Int.isCoprime_iff_gcd_eq_one]
  obtain ⟨m', hm⟩ := Int.gcd_dvd_left m timer
  obtain ⟨n, hn⟩ := Int.gcd_dvd_right m timer
  have hgp : 0 < Int.gcd m timer := Int.gcd_pos_of_ne_zero_right m (by omega)
  generalize Int.gcd m timer = g at hm hn hgp ⊢
  have hnp : 0 < n := by
    by_contra hle
    nlinarith
  -- the timer divides `m` times its own part that `m` does not have
  have hna : (n.toNat : ℤ) = n := Int.toNat_of_nonneg hnp.le
  have hmu : m * n = timer * m' := by
    rw [hm, hn]
    ring
  have hd : timer ∣ n := by
    have hf := h n.toNat (by omega) ⟨m', by rw [hna, hmu]⟩
    rwa [hna] at hf
  have hle := Int.le_of_dvd hnp hd
  have hg : (g : ℤ) ≤ 1 := by nlinarith
  omega

end Chanos.Lib

import Chanos.Lib.Words

/-!
# The Internet checksum

The one's-complement sum of a byte string read as 16-bit words most significant byte first, an odd
last byte padded with a zero (`onesSum`), and the Internet checksum, its complement. Such sums are
those of the words (`wordSum`) modulo `2^16 - 1`, with `0` only for the empty sum (`onesRep`).
-/

namespace Chanos.Lib

open List Nat
variable {l : List UInt8} {n : ℕ}

def ocAdd (a b : ℕ) : ℕ := if a + b < 65536 then a + b else a + b - 65535

def wordSum : List UInt8 → ℕ
  | [] => 0
  | [a] => a.toNat * 256
  | a :: b :: l => a.toNat * 256 + b.toNat + wordSum l

def onesSum : List UInt8 → ℕ
  | [] => 0
  | [a] => a.toNat * 256
  | a :: b :: l => ocAdd (a.toNat * 256 + b.toNat) (onesSum l)

def internetChecksum (l : List UInt8) : UInt16 := UInt16.ofNat (65535 - onesSum l)

def onesRep (n : ℕ) : ℕ := if n = 0 then 0 else (n - 1) % 65535 + 1

theorem onesRep_le (n : ℕ) : onesRep n ≤ 65535 := by
  unfold onesRep
  split_ifs <;> omega

theorem onesRep_eq_zero_iff : onesRep n = 0 ↔ n = 0 := by
  by_cases hn : n = 0
  · simp [onesRep, hn]
  · rw [onesRep, if_neg hn]
    omega

theorem onesRep_mod (n : ℕ) : onesRep n % 65535 = n % 65535 := by
  unfold onesRep
  split_ifs <;> omega

theorem eq_onesRep_of_mod {m n : ℕ} (hm : m ≤ 65535) (hmo : m % 65535 = n % 65535)
    (hz : m = 0 ↔ n = 0) : m = onesRep n := by
  unfold onesRep
  split_ifs with hn
  · exact hz.mpr hn
  · have hp : m ≠ 0 := fun h0 => hn (hz.mp h0)
    omega

theorem onesRep_eq_max_iff : onesRep n = 65535 ↔ n ≠ 0 ∧ n % 65535 = 0 := by
  by_cases hn : n = 0
  · simp [onesRep, hn]
  · rw [onesRep, if_neg hn]
    omega

theorem ocAdd_onesRep {a : ℕ} (ha : a ≤ 65535) (n : ℕ) : ocAdd a (onesRep n) = onesRep (a + n) := by
  have hle := onesRep_le n
  have hmo := onesRep_mod n
  have hz := @onesRep_eq_zero_iff n
  unfold ocAdd
  split_ifs with hc
  all_goals exact eq_onesRep_of_mod (by omega) (by omega) (by omega)

theorem onesSum_eq (l : List UInt8) : onesSum l = onesRep (wordSum l) := by
  fun_induction onesSum l with
  | case1 => rfl
  | case2 a =>
    have ha := a.toNat_lt
    exact eq_onesRep_of_mod (by omega) rfl Iff.rfl
  | case3 a b l ih =>
    have ha := a.toNat_lt
    have hb := b.toNat_lt
    rw [ih, ocAdd_onesRep (by omega), wordSum]

theorem toNat_internetChecksum (l : List UInt8) :
    (internetChecksum l).toNat = 65535 - onesRep (wordSum l) := by
  rw [internetChecksum, onesSum_eq, UInt16.toNat_ofNat', mod_eq_of_lt (by omega)]

def swap16 (n : ℕ) : ℕ := n % 256 * 256 + n / 256

theorem swap16_bytes (h : n < 65536) : swap16 n / 256 = n % 256 ∧ swap16 n % 256 = n / 256 := by
  have hd : n / 256 < 256 := Nat.div_lt_of_lt_mul h
  refine ⟨?_, ?_⟩
  · rw [swap16, mul_comm, mul_add_div (by norm_num), div_eq_of_lt hd, add_zero]
  · rw [swap16, mul_comm, mul_add_mod, mod_eq_of_lt hd]

theorem swap16_swap16 (h : n < 65536) : swap16 (swap16 n) = n := by
  obtain ⟨hd, hmo⟩ := swap16_bytes h
  rw [swap16, hd, hmo]
  omega

theorem swap16_compl (h : n ≤ 65535) : swap16 (65535 - n) = 65535 - swap16 n := by
  have hd : (65535 - n) / 256 = 255 - n / 256 := by omega
  have hmo : (65535 - n) % 256 = 255 - n % 256 := by omega
  have hlo : n % 256 ≤ 255 := by omega
  have hh : n / 256 ≤ 255 := by omega
  rw [swap16, swap16, hd, hmo]
  omega

theorem swap16_mod (n : ℕ) : swap16 n % 65535 = 256 * n % 65535 := by
  unfold swap16
  omega

theorem swap16_onesRep {m n : ℕ} (hmo : m % 65535 = 256 * n % 65535) (hz : m = 0 ↔ n = 0) :
    swap16 (onesRep n) = onesRep m := by
  have hle := onesRep_le n
  have hr := onesRep_mod n
  have hsw := swap16_mod (onesRep n)
  refine eq_onesRep_of_mod ?_ (by omega) ?_
  · unfold swap16
    omega
  · rw [hz, ← @onesRep_eq_zero_iff n, swap16]
    omega

namespace Half

def htons : Endian → UInt16 → UInt16
  | .big, x => x
  | .little, x => ofBE (bytesBE x).reverse

theorem toNat_ofBE (a b : UInt8) : (ofBE [a, b]).toNat = a.toNat * 256 + b.toNat := by
  have ha := a.toNat_lt
  have hb := b.toNat_lt
  simp only [ofBE, UInt16.toNat_ofNat']
  omega

theorem toNat_htons_little (x : UInt16) : (htons .little x).toNat = swap16 x.toNat := by
  have hx := x.toNat_lt
  simp only [htons, bytesBE, reverse_cons, reverse_nil, nil_append,
    cons_append, toNat_ofBE, UInt8.toNat_ofNat', swap16]
  omega

@[simp]
theorem htons_htons (e : Endian) (x : UInt16) : htons e (htons e x) = x := by
  cases e
  · apply UInt16.toNat_inj.mp
    rw [toNat_htons_little, toNat_htons_little, swap16_swap16 x.toNat_lt]
  · rfl

theorem toBytes_htons (e : Endian) (x : UInt16) : toBytes e (htons e x) = bytesBE x := by
  cases e
  · obtain ⟨hd, hmo⟩ := swap16_bytes x.toNat_lt
    have hh : UInt8.ofNat (swap16 x.toNat / 2 ^ 8) = UInt8.ofNat x.toNat := by
      apply UInt8.toNat_inj.mp
      rw [show (2 : ℕ) ^ 8 = 256 from rfl, hd, UInt8.toNat_ofNat', UInt8.toNat_ofNat', mod_mod]
    have hlo : UInt8.ofNat (swap16 x.toNat) = UInt8.ofNat (x.toNat / 2 ^ 8) := by
      apply UInt8.toNat_inj.mp
      rw [UInt8.toNat_ofNat', UInt8.toNat_ofNat', show (2 : ℕ) ^ 8 = 256 from rfl, hmo,
        ← hmo, mod_mod]
    rw [toBytes, bytesBE, toNat_htons_little, reverse_cons, reverse_singleton,
      singleton_append, hh, hlo, bytesBE]
  · rfl

theorem toBytes_eq_iff {e : Endian} {x c : UInt16} : toBytes e x = bytesBE c ↔ htons e x = c := by
  rw [← toBytes_htons e c]
  constructor
  · intro h
    have hx : x = htons e c := by rw [← ofBytes_toBytes e x, h, ofBytes_toBytes]
    rw [hx, htons_htons]
  · intro h
    rw [← h, htons_htons]

end Half

/-- The sum of the 16-bit words of a byte string as a host reads them from its memory, an odd last
byte being the first byte of a word whose other byte is zero. -/
def hostSum (e : Endian) : List UInt8 → ℕ
  | [] => 0
  | [a] => (Half.ofBytes e [a, 0]).toNat
  | a :: b :: l => (Half.ofBytes e [a, b]).toNat + hostSum e l

open Half

theorem hostSum_big (l : List UInt8) : hostSum .big l = wordSum l := by
  fun_induction hostSum Endian.big l with
  | case1 => rfl
  | case2 a => rw [ofBytes, toNat_ofBE, wordSum, UInt8.toNat_zero, add_zero]
  | case3 a b l ih => rw [ih, ofBytes, toNat_ofBE, wordSum]

theorem hostSum_little (l : List UInt8) :
    hostSum .little l % 65535 = 256 * wordSum l % 65535 ∧
      (hostSum .little l = 0 ↔ wordSum l = 0) := by
  fun_induction hostSum Endian.little l with
  | case1 => exact ⟨rfl, Iff.rfl⟩
  | case2 a =>
    have hr : (ofBytes .little [a, 0]).toNat = a.toNat := by
      rw [ofBytes, reverse_cons, reverse_singleton, singleton_append,
        toNat_ofBE, UInt8.toNat_zero, zero_mul, zero_add]
    rw [hr, wordSum]
    omega
  | case3 a b l ih =>
    have hr : (ofBytes .little [a, b]).toNat = b.toNat * 256 + a.toNat := by
      rw [ofBytes, reverse_cons, reverse_singleton, singleton_append, toNat_ofBE]
    rw [hr, wordSum]
    omega

theorem hostSum_append (e : Endian) (h : Even l.length) (k : List UInt8) :
    hostSum e (l ++ k) = hostSum e l + hostSum e k := by
  fun_induction hostSum e l with
  | case1 => simp
  | case2 a => simp at h
  | case3 a b l ih =>
    have hl : Even l.length := by
      rw [length_cons, length_cons, even_add_one, even_add_one, not_not] at h
      exact h
    rw [cons_append, cons_append, hostSum, ih hl]
    omega

theorem hostSum_le (e : Endian) (l : List UInt8) : hostSum e l ≤ 65535 * ((l.length + 1) / 2) := by
  fun_induction hostSum e l with
  | case1 => simp
  | case2 a =>
    have := (ofBytes e [a, 0]).toNat_lt
    rw [length_singleton]
    omega
  | case3 a b l ih =>
    have := (ofBytes e [a, b]).toNat_lt
    rw [length_cons, length_cons]
    omega

theorem htons_eq_internetChecksum {e : Endian} {r : UInt16}
    (hr : r.toNat = 65535 - onesRep (hostSum e l)) : htons e r = internetChecksum l := by
  apply UInt16.toNat_inj.mp
  rw [toNat_internetChecksum]
  cases e
  · obtain ⟨hmo, hz⟩ := hostSum_little l
    have hle := onesRep_le (wordSum l)
    have hsw : swap16 (onesRep (wordSum l)) ≤ 65535 := by
      rw [swap16_onesRep hmo hz]
      exact onesRep_le _
    rw [toNat_htons_little, hr, swap16_compl (onesRep_le _), ← swap16_onesRep hmo hz,
      swap16_swap16 (by omega)]
  · rw [hostSum_big] at hr
    exact hr

theorem onesRep_wordSum_add_internetChecksum (l : List UInt8) :
    onesRep (wordSum l + (internetChecksum l).toNat) = 65535 := by
  have hle := onesRep_le (wordSum l)
  have hmo := onesRep_mod (wordSum l)
  have hz := @onesRep_eq_zero_iff (wordSum l)
  rw [toNat_internetChecksum, onesRep_eq_max_iff]
  omega

theorem internetChecksum_eq_zero_iff :
    internetChecksum l = 0 ↔ wordSum l ≠ 0 ∧ wordSum l % 65535 = 0 := by
  have hle := onesRep_le (wordSum l)
  rw [← onesRep_eq_max_iff, ← UInt16.toNat_inj, toNat_internetChecksum, UInt16.toNat_zero]
  omega

theorem wordSum_add_htons_ne {e : Endian} {r : UInt16} {v : ℕ} (hv : v ≤ 65535)
    (hr : r.toNat = 65535 - v) (hmo : (v + 1) % 65535 = hostSum e l % 65535) :
    (wordSum l + (htons e r).toNat) % 65535 ≠ 0 := by
  cases e
  · -- The exchanged word is `2^8 (2^16 - 1 - v)`, and the host's sum `2^8` times the sum.
    have hh := (hostSum_little l).1
    have hsw := swap16_mod r.toNat
    rw [toNat_htons_little]
    omega
  · rw [hostSum_big] at hmo
    rw [htons]
    omega

end Chanos.Lib

import Chanos.Lib.Bytes

/-!
# 32-bit words in memory

How a 32-bit word lies in memory on a little-endian and on a big-endian host (`toBytes`, `ofBytes`),
the same for a 16-bit one (`Half`), and the conversion between the host's order and the network's
(`htonl`, which is also `ntohl`).
-/

namespace Chanos.Lib

open UInt8 List

inductive Endian
  | little
  | big
  deriving DecidableEq

def signed32 (x : UInt32) : ℤ := (x.toNat : ℤ).bmod (2 ^ 32)

def wrap32 (z : ℤ) : ℤ := z.bmod (2 ^ 32)

namespace Word

def bytesBE (x : UInt32) : List UInt8 :=
  [ofNat (x.toNat / 2 ^ 24), ofNat (x.toNat / 2 ^ 16), ofNat (x.toNat / 2 ^ 8),
    ofNat x.toNat]

def ofBE : List UInt8 → UInt32
  | [a, b, c, d] => UInt32.ofNat (a.toNat * 2 ^ 24 + b.toNat * 2 ^ 16 + c.toNat * 2 ^ 8 + d.toNat)
  | _ => 0

def toBytes : Endian → UInt32 → List UInt8
  | .big, x => bytesBE x
  | .little, x => (bytesBE x).reverse

def ofBytes : Endian → List UInt8 → UInt32
  | .big, l => ofBE l
  | .little, l => ofBE l.reverse

variable (e : Endian)

@[simp]
theorem length_toBytes (x : UInt32) : (toBytes e x).length = 4 := by
  cases e <;> rfl

theorem ofBE_bytesBE (x : UInt32) : ofBE (bytesBE x) = x := by
  apply UInt32.toNat_inj.mp
  have hx : x.toNat < 2 ^ 32 := x.toNat_lt
  simp only [bytesBE, ofBE, toNat_ofNat', UInt32.toNat_ofNat']
  omega

theorem bytesBE_ofBE {l : List UInt8} (hl : l.length = 4) : bytesBE (ofBE l) = l := by
  obtain ⟨a, b, c, d, rfl⟩ : ∃ a b c d, l = [a, b, c, d] := by
    match l, hl with
    | [a, b, c, d], _ => exact ⟨a, b, c, d, rfl⟩
  have ha := a.toNat_lt
  have hb := b.toNat_lt
  have hc := c.toNat_lt
  have hd := d.toNat_lt
  simp only [bytesBE, ofBE, UInt32.toNat_ofNat', cons.injEq, and_true]
  refine ⟨?_, ?_, ?_, ?_⟩ <;> apply UInt8.toNat_inj.mp <;> simp only [UInt8.toNat_ofNat'] <;> omega

@[simp]
theorem ofBytes_toBytes (x : UInt32) : ofBytes e (toBytes e x) = x := by
  cases e
  · rw [toBytes, ofBytes, reverse_reverse, ofBE_bytesBE]
  · rw [toBytes, ofBytes, ofBE_bytesBE]

def htonl : Endian → UInt32 → UInt32
  | .big, x => x
  | .little, x => ofBE (bytesBE x).reverse

theorem toBytes_htonl (x : UInt32) : toBytes e (htonl e x) = toBytes .big x := by
  cases e
  · rw [htonl, toBytes, toBytes, bytesBE_ofBE (by rfl), reverse_reverse]
  · rfl

theorem htonl_ofBytes {l : List UInt8} (hl : l.length = 4) :
    htonl e (ofBytes e l) = ofBytes .big l := by
  cases e
  · rw [htonl, ofBytes, ofBytes, bytesBE_ofBE (by rw [length_reverse, hl]),
      reverse_reverse]
  · rfl

@[simp]
theorem htonl_zero : htonl e 0 = 0 := by
  cases e <;> decide

@[simp]
theorem htonl_htonl (x : UInt32) : htonl e (htonl e x) = x := by
  cases e
  · rw [htonl, htonl, bytesBE_ofBE (by rfl), reverse_reverse, ofBE_bytesBE]
  · rfl

end Word

namespace Half

def bytesBE (x : UInt16) : List UInt8 := [ofNat (x.toNat / 2 ^ 8), ofNat x.toNat]

def ofBE : List UInt8 → UInt16
  | [a, b] => UInt16.ofNat (a.toNat * 2 ^ 8 + b.toNat)
  | _ => 0

def toBytes : Endian → UInt16 → List UInt8
  | .big, x => bytesBE x
  | .little, x => (bytesBE x).reverse

def ofBytes : Endian → List UInt8 → UInt16
  | .big, l => ofBE l
  | .little, l => ofBE l.reverse

@[simp]
theorem length_toBytes (e : Endian) (x : UInt16) : (toBytes e x).length = 2 := by
  cases e <;> rfl

@[simp]
theorem ofBE_bytesBE (x : UInt16) : ofBE (bytesBE x) = x := by
  have h := x.toNat_lt
  apply UInt16.toNat_inj.mp
  simp only [bytesBE, ofBE, toNat_ofNat', UInt16.toNat_ofNat']
  omega

@[simp]
theorem ofBytes_toBytes (e : Endian) (x : UInt16) : ofBytes e (toBytes e x) = x := by
  cases e
  · rw [toBytes, ofBytes, reverse_reverse, ofBE_bytesBE]
  · rw [toBytes, ofBytes, ofBE_bytesBE]

end Half

theorem signed32_of_lt {x : UInt32} (h : x.toNat < 2 ^ 31) : signed32 x = x.toNat :=
  Int.bmod_eq_of_le (by omega) (by omega)

theorem signed32_ofNat {n : ℕ} (h : n < 2 ^ 31) : signed32 (UInt32.ofNat n) = n := by
  have hn : (UInt32.ofNat n).toNat = n := by rw [UInt32.toNat_ofNat', Nat.mod_eq_of_lt (by omega)]
  rw [signed32_of_lt (by omega), hn]

theorem wrap32_of_lt {z : ℤ} (h0 : 0 ≤ z) (h1 : z < 2 ^ 31) : wrap32 z = z :=
  Int.bmod_eq_of_le (by omega) (by omega)

end Chanos.Lib

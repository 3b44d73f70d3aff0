import Mathlib.Tactic

/-!
# Bit fields of a word

A bit field of a 32-bit word is a run of its bits. `get` reads it as an unsigned number, and `set`
stores a value in it the way an assignment does, keeping the low bits of the value and the other
bits of the word.
-/

namespace Chanos.Lib

structure BitField where
  shift : ℕ
  width : ℕ
  le : shift + width ≤ 32

namespace BitField

variable (f g : BitField) (x : UInt32)

def get : ℕ := x.toNat / 2 ^ f.shift % 2 ^ f.width

def set (v : ℤ) : UInt32 :=
  UInt32.ofNat (2 ^ f.shift * (2 ^ f.width * (x.toNat / 2 ^ (f.shift + f.width)) +
    (v % 2 ^ f.width).toNat) + x.toNat % 2 ^ f.shift)

def Apart : Prop := f.shift + f.width ≤ g.shift ∨ g.shift + g.width ≤ f.shift

instance : Decidable (Apart f g) := inferInstanceAs (Decidable (_ ∨ _))

theorem stored_lt (v : ℤ) : (v % 2 ^ f.width).toNat < 2 ^ f.width := by
  have hp : (0 : ℤ) < 2 ^ f.width := by positivity
  have hlt := Int.emod_lt_of_pos v hp
  have hc : ((2 ^ f.width : ℕ) : ℤ) = 2 ^ f.width := by push_cast; rfl
  omega

theorem toNat_set (v : ℤ) :
    (f.set x v).toNat = 2 ^ f.shift * (2 ^ f.width * (x.toNat / 2 ^ (f.shift + f.width)) +
      (v % 2 ^ f.width).toNat) + x.toNat % 2 ^ f.shift := by
  refine (UInt32.toNat_ofNat').trans (Nat.mod_eq_of_lt ?_)
  have hlo : x.toNat % 2 ^ f.shift < 2 ^ f.shift := Nat.mod_lt _ (Nat.two_pow_pos _)
  have hmi := f.stored_lt v
  have hh : x.toNat / 2 ^ (f.shift + f.width) < 2 ^ (32 - (f.shift + f.width)) := by
    rw [Nat.div_lt_iff_lt_mul (Nat.two_pow_pos _), ← pow_add, Nat.sub_add_cancel f.le]
    exact x.toNat_lt
  have hup : 2 ^ f.width * (x.toNat / 2 ^ (f.shift + f.width)) + (v % 2 ^ f.width).toNat <
      2 ^ f.width * 2 ^ (32 - (f.shift + f.width)) := by
    have := Nat.mul_le_mul_left (2 ^ f.width) (Nat.succ_le_of_lt hh)
    rw [Nat.mul_succ] at this
    omega
  calc _ < 2 ^ f.shift * (2 ^ f.width * (x.toNat / 2 ^ (f.shift + f.width)) +
          (v % 2 ^ f.width).toNat) + 2 ^ f.shift := Nat.add_lt_add_left hlo _
    _ ≤ 2 ^ f.shift * (2 ^ f.width * 2 ^ (32 - (f.shift + f.width))) := by
        rw [← Nat.mul_succ]
        exact Nat.mul_le_mul_left _ (Nat.succ_le_of_lt hup)
    _ = 2 ^ 32 := by
        rw [← pow_add, ← pow_add]
        congr 1
        have := f.le
        omega

theorem get_set (v : ℤ) : f.get (f.set x v) = (v % 2 ^ f.width).toNat := by
  have hlo : x.toNat % 2 ^ f.shift < 2 ^ f.shift := Nat.mod_lt _ (Nat.two_pow_pos _)
  rw [get, toNat_set, Nat.mul_add_div (Nat.two_pow_pos _), Nat.div_eq_of_lt hlo, Nat.add_zero,
    Nat.mul_add_mod, Nat.mod_eq_of_lt (f.stored_lt v)]

theorem get_set_of_lt {v : ℕ} (h : v < 2 ^ f.width) : f.get (f.set x v) = v := by
  have hmo : (v : ℤ) % 2 ^ f.width = v := by
    refine Int.emod_eq_of_lt (by positivity) ?_
    exact_mod_cast h
  rw [get_set, hmo, Int.toNat_natCast]

theorem get_set_of_apart {f g : BitField} (h : Apart f g) (x : UInt32) (v : ℤ) :
    g.get (f.set x v) = g.get x := by
  have hlo : x.toNat % 2 ^ f.shift < 2 ^ f.shift := Nat.mod_lt _ (Nat.two_pow_pos _)
  rcases h with h | h
  · -- The bits above the field are those of the word.
    have ha : (f.set x v).toNat / 2 ^ (f.shift + f.width) = x.toNat / 2 ^ (f.shift + f.width) := by
      rw [toNat_set, pow_add, ← Nat.div_div_eq_div_mul, Nat.mul_add_div (Nat.two_pow_pos _),
        Nat.div_eq_of_lt hlo, Nat.add_zero, Nat.mul_add_div (Nat.two_pow_pos _),
        Nat.div_eq_of_lt (f.stored_lt v), Nat.add_zero]
    have hsp : ∀ y : ℕ, y / 2 ^ g.shift =
        y / 2 ^ (f.shift + f.width) / 2 ^ (g.shift - (f.shift + f.width)) := fun y => by
      rw [Nat.div_div_eq_div_mul, ← pow_add, Nat.add_sub_cancel' h]
    rw [get, get, hsp, ha, ← hsp]
  · -- The bits below the field are those of the word.
    have hb : (f.set x v).toNat % 2 ^ f.shift = x.toNat % 2 ^ f.shift := by
      rw [toNat_set, Nat.mul_add_mod, Nat.mod_mod]
    have hsp : ∀ y : ℕ, y / 2 ^ g.shift % 2 ^ g.width =
        y % 2 ^ f.shift % 2 ^ (g.shift + g.width) / 2 ^ g.shift := fun y => by
      rw [Nat.mod_mod_of_dvd _ (pow_dvd_pow 2 h), pow_add, Nat.mod_mul_right_div_self]
    rw [get, get, hsp, hb, ← hsp]

end BitField

end Chanos.Lib

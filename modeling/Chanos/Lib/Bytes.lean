import Mathlib.Data.List.SplitLengths
import Mathlib.Tactic

/-!
# Byte strings and byte buffers

`Bytes n` is a block of exactly `n` bytes. A buffer is a list of bytes that a program reads and
rewrites in place at offsets it computes itself, so an offset is an integer and an access may miss
the buffer: `load` is `none` exactly when one of the bytes it asks for is not there.
-/

namespace Chanos.Lib

open List

abbrev Bytes (n : ℕ) : Type := List.Vector UInt8 n

namespace Bytes

variable {n : ℕ}

def zero (n : ℕ) : Bytes n := List.Vector.replicate n 0

def ofList (n : ℕ) (l : List UInt8) : Bytes n := if h : l.length = n then ⟨l, h⟩ else zero n

def six (a b c d e f : UInt8) : Bytes 6 := ⟨[a, b, c, d, e, f], rfl⟩

@[simp]
theorem ofList_toList (a : Bytes n) : ofList n a.toList = a :=
  (dif_pos a.toList_length).trans (Vector.eq _ _ rfl)

def splice (k : ℕ) (a b : Bytes n) : Bytes n :=
  ⟨a.toList.take k ++ b.toList.drop k, by
    simp only [length_append, length_take, length_drop, Vector.toList_length]
    omega⟩

def head (k : ℕ) (a : Bytes n) : List UInt8 := a.toList.take k

theorem toList_splice (k : ℕ) (a b : Bytes n) :
    (splice k a b).toList = a.toList.take k ++ b.toList.drop k := rfl

@[simp]
theorem head_splice (k : ℕ) (a b : Bytes n) : head k (splice k a b) = head k a := by
  unfold head
  rw [toList_splice, take_append, take_take, Nat.min_self, length_take, List.Vector.toList_length]
  rcases Nat.lt_or_ge n k with h | h
  · -- `k` is past the end of both blocks, so the second part of the splice is empty.
    have hb : b.toList.drop k = [] := by
      rw [drop_eq_nil_iff, List.Vector.toList_length]
      omega
    rw [hb, take_nil, append_nil]
  · rw [Nat.min_eq_left h, Nat.sub_self, take_zero, append_nil]

end Bytes

theorem splitLengths_flatten {α : Type*} (L : List (List α)) :
    (L.map length).splitLengths L.flatten = L := by
  induction L with
  | nil => rfl
  | cons a L ih =>
    rw [map_cons, flatten_cons, splitLengths_cons, take_left, drop_left, ih]

theorem drop_eq_take_append_drop {α : Type*} (l : List α) {a b : ℕ} (h : a ≤ b) :
    l.drop a = (l.drop a).take (b - a) ++ l.drop b := by
  have hb : l.drop b = (l.drop a).drop (b - a) := by rw [drop_drop, Nat.add_sub_cancel' h]
  rw [hb, take_append_drop]

/-! ## Buffers -/

def load (buf : List UInt8) (off : ℤ) (n : ℕ) : Option (Bytes n) :=
  if h : n = 0 ∨ (0 ≤ off ∧ off + n ≤ buf.length) then
    some ⟨(buf.drop off.toNat).take n, by
      rw [length_take, length_drop]
      omega⟩
  else none

def store {n : ℕ} (buf : List UInt8) (off : ℤ) (d : Bytes n) : List UInt8 :=
  buf.take off.toNat ++ d.toList ++ buf.drop (off.toNat + n)

def sameBytes (a b : List UInt8) (n : ℕ) : Option Bool :=
  if a.take n = b.take n then if n ≤ a.length ∧ n ≤ b.length then some true else none
  else some false

theorem sameBytes_eq_none_iff {a b : List UInt8} (hlen : a.length = b.length) {n : ℕ} :
    sameBytes a b n = none ↔ a = b ∧ a.length < n := by
  unfold sameBytes
  rcases Nat.lt_or_ge a.length n with hn | hn
  · rw [take_of_length_le (by omega), take_of_length_le (by omega)]
    by_cases ha : a = b
    · rw [if_pos ha, if_neg (by omega)]
      exact iff_of_true rfl ⟨ha, hn⟩
    · rw [if_neg ha]
      exact iff_of_false (by simp) fun h => ha h.1
  · rw [if_pos (show n ≤ a.length ∧ n ≤ b.length from ⟨hn, by omega⟩)]
    refine iff_of_false ?_ fun h => absurd h.2 (by omega)
    split_ifs <;> simp

section

variable {n : ℕ} {off : ℤ} (pre post : List UInt8)

theorem load_append (d : Bytes n) (ho : off = pre.length) :
    load (pre ++ d.toList ++ post) off n = some d := by
  subst ho
  have hlen : (pre ++ d.toList ++ post).length = pre.length + n + post.length := by
    simp only [length_append, List.Vector.toList_length]
  have hin : n = 0 ∨ ((0 : ℤ) ≤ pre.length ∧
      (pre.length : ℤ) + n ≤ (pre ++ d.toList ++ post).length) := by
    right
    rw [hlen]
    omega
  unfold load
  rw [dif_pos hin]
  congr 1
  apply List.Vector.eq
  change ((pre ++ d.toList ++ post).drop (pre.length : ℤ).toNat).take n = d.toList
  rw [Int.toNat_natCast, append_assoc, drop_left, take_left' (List.Vector.toList_length d)]

theorem store_append (d d' : Bytes n) (ho : off = pre.length) :
    store (pre ++ d.toList ++ post) off d' = pre ++ d'.toList ++ post := by
  subst ho
  unfold store
  rw [Int.toNat_natCast, append_assoc pre, take_left, ← drop_drop, drop_left,
    drop_left' (List.Vector.toList_length d)]

end

end Chanos.Lib

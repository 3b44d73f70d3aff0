import Chanos.Lib.Bytes

/-!
# Sequences of options

Options as they lie one after the other in a block of bytes: a padding byte stands alone, every
other option has its code, its length and its data, and a byte of its own closes the sequence. An
option carries the conditions under which it can be written, so every sequence has its bytes
(`encode`).
-/

namespace Chanos.Lib

open List

inductive Tlv (padding stop : UInt8)
  | pad
  | opt (code : UInt8) (data : List UInt8) (not_padding : code ≠ padding) (not_stop : code ≠ stop)
    (short : data.length < 256)

namespace Tlv

variable {padding stop : UInt8} {items : List (Tlv padding stop)}
  {items items' : List (Tlv padding stop)} {rest l : List UInt8}

def bytes : Tlv padding stop → List UInt8
  | pad => [padding]
  | opt code data _ _ _ => code :: UInt8.ofNat data.length :: data

def hasCode (c : UInt8) : Tlv padding stop → Bool
  | pad => false
  | opt code _ _ _ _ => code == c

def encode (items : List (Tlv padding stop)) : List UInt8 := items.flatMap bytes

@[simp]
theorem encode_nil : encode ([] : List (Tlv padding stop)) = [] := rfl

@[simp]
theorem encode_cons (a : Tlv padding stop) (items : List (Tlv padding stop)) :
    encode (a :: items) = a.bytes ++ encode items := rfl

@[simp]
theorem encode_append (items items' : List (Tlv padding stop)) :
    encode (items ++ items') = encode items ++ encode items' := flatMap_append

theorem length_encode_le (h : items'.Sublist items) :
    (encode items').length ≤ (encode items).length := (h.flatMap bytes).length_le

theorem toNat_ofNat_length {data : List UInt8} (h : data.length < 256) :
    (UInt8.ofNat data.length).toNat = data.length := by
  rw [UInt8.toNat_ofNat', Nat.mod_eq_of_lt h]

def Closed (items : List (Tlv padding stop)) (rest l : List UInt8) : Prop :=
  l = encode items ++ stop :: rest

theorem Closed.append
    (h : Closed items rest l) (t : List UInt8) : Closed items (rest ++ t) (l ++ t) := by
  rw [Closed, h, append_assoc, cons_append]

theorem Closed.length_lt (h : Closed items rest l) : (encode items).length < l.length := by
  rw [h, length_append, length_cons]
  omega

theorem Closed.exists_take (h : Closed items rest l) {n : ℕ} (hn : (encode items).length < n) :
    ∃ rest', Closed items rest' (l.take n) := by
  refine ⟨rest.take (n - (encode items).length - 1), ?_⟩
  rw [Closed, h, take_append, take_of_length_le hn.le, take_cons (Nat.sub_pos_of_lt hn)]

theorem encode_stop_inj (hne : padding ≠ stop) {rest rest' : List UInt8}
    (h : encode items ++ stop :: rest = encode items' ++ stop :: rest') :
    items = items' ∧ rest = rest' := by
  induction items generalizing items' with
  | nil =>
    rcases items' with _ | ⟨_ | ⟨code, data, hp, hsp, hlen⟩, items'⟩
    · exact ⟨rfl, (cons.inj h).2⟩
    · exact absurd (cons.inj h).1.symm hne
    · exact absurd (cons.inj h).1.symm hsp
  | cons a items ih =>
    rcases a with _ | ⟨code, data, hp, hsp, hlen⟩
    · rcases items' with _ | ⟨_ | ⟨code', data', hp', hsp', hlen'⟩, items'⟩
      · exact absurd (cons.inj h).1 hne
      · obtain ⟨rfl, hrs⟩ := ih (cons.inj h).2
        exact ⟨rfl, hrs⟩
      · exact absurd (cons.inj h).1.symm hp'
    · rcases items' with _ | ⟨_ | ⟨code', data', hp', hsp', hlen'⟩, items'⟩
      · exact absurd (cons.inj h).1 hsp
      · exact absurd (cons.inj h).1 hp
      · -- The codes, the lengths and so the data are the same.
        simp only [encode_cons, bytes, cons_append, cons.injEq] at h
        obtain ⟨rfl, hb, ht⟩ := h
        have hln : data.length = data'.length := by
          rw [← toNat_ofNat_length hlen, hb, toNat_ofNat_length hlen']
        rw [append_assoc, append_assoc] at ht
        obtain ⟨rfl, hi⟩ := append_inj ht hln
        obtain ⟨rfl, hrs⟩ := ih hi
        exact ⟨rfl, hrs⟩

theorem Closed.unique (hne : padding ≠ stop) {rest rest' l : List UInt8} (h : Closed items rest l)
    (h' : Closed items' rest' l) : items = items' :=
  (encode_stop_inj hne (h.symm.trans h')).1

theorem closed_of_closed_append {rest l t : List UInt8}
    (ht : stop ∉ t) (h : Closed items rest (l ++ t)) : ∃ rest', Closed items rest' l := by
  rcases lt_or_ge (encode items).length l.length with hlt | hge
  · -- The closing byte is in `l`.
    have htk := congrArg (take ((encode items).length + 1)) h
    rw [take_append_of_le_length (by omega), take_length_add_append, take_succ_cons,
      take_zero] at htk
    refine ⟨l.drop ((encode items).length + 1), ?_⟩
    calc l = l.take ((encode items).length + 1) ++ l.drop ((encode items).length + 1) :=
          (take_append_drop ..).symm
      _ = encode items ++ stop :: l.drop ((encode items).length + 1) := by
          rw [htk, append_assoc, singleton_append]
  · -- It would be in `t`.
    have hd := congrArg (drop (encode items).length) h
    rw [drop_append, drop_of_length_le hge, nil_append, drop_left] at hd
    have hme : stop ∈ t.drop ((encode items).length - l.length) := by
      rw [hd]
      exact mem_cons_self
    exact absurd (mem_of_mem_drop hme) ht

end Tlv

end Chanos.Lib

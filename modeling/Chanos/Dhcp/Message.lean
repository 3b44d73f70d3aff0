import Chanos.Database.Table

/-!
# DHCP messages and their options

The data of `NPD_DHCP_MESSAGE_T` and the search for an option, `npd_dhcp_snp_get_option`. A message
is the block of memory that a packet is received into, so its words are in network order and are
read in the order of the host.
-/

namespace Chanos.Dhcp

open Lib Database Option

def messageSize : ℕ := 1740

abbrev DhcpMessage : Type := Bytes messageSize

namespace DhcpMessage

variable (e : Endian) (packet : DhcpMessage)

def byte (off : ℕ) : UInt8 := packet.toList.getD off 0

def word (off : ℕ) : UInt32 := Word.ofBytes e ((packet.toList.drop off).take 4)

def op : UInt8 := packet.byte 0

def hlen : UInt8 := packet.byte 2

def xid : UInt32 := packet.word e 4

def yiaddr : UInt32 := packet.word e 16

def giaddr : UInt32 := packet.word e 24

def chaddr : Bytes 6 :=
  ⟨(packet.toList.drop 28).take 6, by
    rw [List.length_take, List.length_drop, List.Vector.toList_length]
    rfl⟩

end DhcpMessage

def bootreply : UInt8 := 2

/-! ## The search for an option -/

def dhcpPadding : UInt8 := 0x00

def dhcpLeaseTime : UInt8 := 0x33

def dhcpOptionOver : UInt8 := 0x34

def dhcpMessageType : UInt8 := 0x35

def dhcpServerId : UInt8 := 0x36

def dhcpEnd : UInt8 := 0xFF

inductive OptionField
  | option
  | file
  | sname
  deriving DecidableEq

open OptionField

namespace OptionField

def base : OptionField → ℕ
  | option => 240
  | file => 108
  | sname => 44

def length : OptionField → ℕ
  | option => 1500
  | file => 128
  | sname => 64

def bytes (curr : OptionField) (packet : DhcpMessage) : List UInt8 :=
  (packet.toList.drop curr.base).take curr.length

def next : OptionField → UInt8 → Option OptionField
  | option, overload => if overload &&& 1 ≠ 0 then some file else none
  | file, overload => if overload &&& 2 ≠ 0 then some sname else none
  | sname, _ => none

def rounds : OptionField → ℕ → ℕ
  | option, i => (option.length - i) + file.length + sname.length + 3
  | file, i => (file.length - i) + sname.length + 2
  | sname, i => (sname.length - i) + 1

end OptionField

inductive OptionRound
  | done (found : Option ℕ)
  | goOn (curr : OptionField) (i : ℕ) (overload : UInt8)

open OptionRound

variable (packet : DhcpMessage) (code : UInt8)

def optionRound (curr : OptionField) (i : ℕ)
    (overload : UInt8) : OptionRound :=
  match (curr.bytes packet).drop i with
  | [] => .done none
  | c :: rest =>
    if c = dhcpPadding then .goOn curr (i + 1) overload
    else if c = dhcpEnd then
      match curr.next overload with
      | some next => .goOn next 0 overload
      | none => .done none
    else
      match rest with
      | len :: data :: _ =>
        if c = code then
          if curr.length ≤ i + 1 + len.toNat then .done none
          else .done (some (curr.base + i + 2))
        else if c = dhcpOptionOver then
          if curr.length ≤ i + 1 + len.toNat then .done none
          else .goOn curr (i + len.toNat + 2) data
        else .goOn curr (i + len.toNat + 2) overload
      | _ => .done none

def getOptionLoop (packet : DhcpMessage) (code : UInt8) :
    ℕ → OptionField → ℕ → UInt8 → Option (Option ℕ)
  | 0, _, _, _ => none
  | fuel + 1, curr, i, overload =>
    match optionRound packet code curr i overload with
    | .done found => some found
    | .goOn curr i overload => getOptionLoop packet code fuel curr i overload

def npdDhcpSnpGetOption : Option ℕ :=
  (getOptionLoop packet code (option.rounds 0) .option 0 0).join

theorem OptionField.base_add_length_le (curr : OptionField) :
    curr.base + curr.length ≤ messageSize := by
  cases curr <;> decide

theorem OptionField.length_bytes (curr : OptionField) (packet : DhcpMessage) :
    (curr.bytes packet).length = curr.length := by
  have h := curr.base_add_length_le
  rw [bytes, List.length_take, List.length_drop, List.Vector.toList_length]
  omega

section

variable {packet : DhcpMessage} {code : UInt8} {curr curr' : OptionField} {i i' : ℕ}
  {overload overload' : UInt8}

theorem OptionField.rounds_next (h : curr.next overload = some curr') :
    curr'.rounds 0 < curr.rounds i := by
  cases curr with
  | option | file =>
    obtain ⟨-, hn⟩ := ite_none_right_eq_some.mp h
    cases hn
    simp only [rounds]
    omega
  | sname => cases h

theorem OptionField.rounds_lt (hi : i < curr.length) (h : i < i') :
    curr.rounds i' < curr.rounds i := by
  cases curr <;> simp only [rounds] <;> omega

theorem optionRound_goOn (h : optionRound packet code curr i overload = .goOn curr' i' overload') :
    curr'.rounds i' < curr.rounds i := by
  unfold optionRound at h
  cases hd : (curr.bytes packet).drop i with rw [hd] at h
  | nil => simp at h
  | cons c rest =>
    have hi : i < curr.length := by
      have hlen := congrArg List.length hd
      rw [List.length_drop, curr.length_bytes, List.length_cons] at hlen
      omega
    -- Every other way of going on stays in the field and goes forward.
    have hst : ∀ {j o}, goOn curr j o = .goOn curr' i' overload' → i < j →
        curr'.rounds i' < curr.rounds i := by
      intro j o heq hj
      cases heq
      exact rounds_lt hi hj
    dsimp only at h
    split at h
    · exact hst h (by omega)
    split at h
    · cases hn : curr.next overload with rw [hn] at h
      | none => simp at h
      | some next =>
        cases h
        exact rounds_next hn
    · split at h
      · split at h
        · split at h <;> simp at h
        split at h
        · split at h
          · simp at h
          · exact hst h (by omega)
        · exact hst h (by omega)
      · simp at h

theorem getOptionLoop_isSome (packet : DhcpMessage) (code overload : UInt8) {fuel : ℕ}
    (h : curr.rounds i ≤ fuel) :
    (getOptionLoop packet code fuel curr i overload).isSome = true := by
  induction fuel generalizing curr i overload with
  | zero => cases curr <;> simp [rounds] at h
  | succ fuel ih =>
    unfold getOptionLoop
    cases hr : optionRound packet code curr i overload with
    | done found => rfl
    | goOn curr' i' overload' =>
      have hlt := optionRound_goOn hr
      exact ih overload' (by omega)

end

theorem getOptionLoop_eq :
    getOptionLoop packet code (option.rounds 0) .option 0 0 =
      some (npdDhcpSnpGetOption packet code) := by
  obtain ⟨found, hf⟩ := isSome_iff_exists.mp
    (getOptionLoop_isSome packet code 0 (option.rounds 0).le_refl)
  rw [npdDhcpSnpGetOption, hf, join_some]

/-! ## Reading an option -/

def readOption (e : Endian) (packet : DhcpMessage) : Option ℕ → Except Fault UInt32
  | none => .error .nullPointer
  | some off =>
    match load packet.toList off 4 with
    | none => .error .outOfBounds
    | some b => .ok (Word.ofBytes e b.toList)

def HasWord : Prop :=
  ∃ off, npdDhcpSnpGetOption packet code = some off ∧ off + 4 ≤ messageSize

def NoShortTail : Prop :=
  ∀ off, npdDhcpSnpGetOption packet code = some off → off + 4 ≤ messageSize

def optionWord (e : Endian) (packet : DhcpMessage) (code : UInt8) : UInt32 :=
  match npdDhcpSnpGetOption packet code with
  | none => 0
  | some off => packet.word e off

theorem readOption_some (e : Endian) (packet : DhcpMessage) (off : ℕ) :
    readOption e packet (some off) =
      if off + 4 ≤ messageSize then .ok (packet.word e off) else .error .outOfBounds := by
  have hin : (4 = 0 ∨ ((0 : ℤ) ≤ off ∧ (off : ℤ) + (4 : ℕ) ≤ packet.toList.length)) ↔
      off + 4 ≤ messageSize := by
    rw [List.Vector.toList_length]
    omega
  unfold readOption load
  dsimp only
  by_cases h : off + 4 ≤ messageSize
  · rw [dif_pos (hin.mpr h), if_pos h]
    rfl
  · rw [dif_neg fun h' => h (hin.mp h'), if_neg h]

theorem readOption_of_hasWord {packet : DhcpMessage} {code : UInt8} (h : HasWord packet code)
    (e : Endian) :
    readOption e packet (npdDhcpSnpGetOption packet code) = .ok (optionWord e packet code) := by
  obtain ⟨off, ho, hle⟩ := h
  rw [optionWord, ho, readOption_some, if_pos hle]

theorem hasWord_of_readOption {packet : DhcpMessage} {code : UInt8} {e : Endian} {x : UInt32}
    (h : readOption e packet (npdDhcpSnpGetOption packet code) = .ok x) : HasWord packet code := by
  cases hget : npdDhcpSnpGetOption packet code with
  | none =>
    rw [hget] at h
    cases h
  | some off =>
    rw [hget, readOption_some] at h
    refine ⟨off, hget, ?_⟩
    by_contra hle
    rw [if_neg hle] at h
    simp at h

end Chanos.Dhcp

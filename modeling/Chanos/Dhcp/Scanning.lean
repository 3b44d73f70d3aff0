import Chanos.Dhcp.Options

/-!
# Whether the option walks stay in the packet

A frame is received into a buffer that is larger than it, and the functions that walk over the
options are not given its length. `ScansInPacket` says that this does not matter for a frame. It
holds exactly when the walk comes to a `DHCP_END` before the end of the frame and of the field
(`scansInPacket_iff`).
-/

namespace Chanos.Dhcp

open Lib Database List Tlv OptionField

def messageOffset : ℕ := 14 + 20 + 8

def optionsOffset : ℕ := messageOffset + option.base

/-- A buffer that begins with a frame. -/
structure RxBuffer (frame : List UInt8) where
  tail : List UInt8
  holds : messageOffset + messageSize ≤ (frame ++ tail).length

namespace RxBuffer

variable {frame : List UInt8} (b : RxBuffer frame)

def message : DhcpMessage :=
  ⟨((frame ++ b.tail).drop messageOffset).take messageSize, by
    have h := b.holds
    rw [length_take, length_drop]
    omega⟩

def options : List UInt8 := (frame ++ b.tail).drop optionsOffset

def field : List UInt8 := b.options.take optionLen

end RxBuffer

def frameOptions (frame : List UInt8) : List UInt8 := (frame.drop optionsOffset).take optionLen

/-- The option walks stay in the packet: what they return and what they write into the frame is the
same for every buffer that begins with the frame. -/
structure ScansInPacket (frame : List UInt8) : Prop where
  search : ∀ code, ∃ found, ∀ b : RxBuffer frame,
    getOptionLoop b.message code (option.rounds 0) .option 0 0 = some found ∧
      npdDhcpSnpGetOption b.message code = found ∧
      npdDhcpSnpCheckOpt82 b.message code = found.isSome
  end_option : ∃ stop, ∀ b : RxBuffer frame,
    npdDhcpSnpEndOption b.field = .ok stop ∧ npdDhcpSnpEndOption b.options = .ok stop
  remove : ∀ code, ∃ ret own del, own.length = (frameOptions frame).length ∧
    ∀ (b : RxBuffer frame) (stop : ℕ), npdDhcpSnpEndOption b.options = .ok stop →
      npdDhcpSnpRemoveOpt82 b.field code stop = .ok (ret, own ++ b.field.drop own.length, del) ∧
        npdDhcpSnpRemoveOpt82 b.options code stop =
          .ok (ret, own ++ b.options.drop own.length, del)

def zeroBuffer (frame : List UInt8) : RxBuffer frame where
  tail := replicate (messageOffset + messageSize) 0
  holds := by
    rw [length_append, length_replicate]
    omega

section

variable {frame : List UInt8}

section

variable (b : RxBuffer frame)

theorem RxBuffer.option_bytes_message : option.bytes b.message = b.field := by
  change ((((frame ++ b.tail).drop messageOffset).take messageSize).drop 240).take 1500 = _
  rw [drop_take, take_take, drop_drop]
  rfl

theorem RxBuffer.bytes_message (h : optionsOffset ≤ frame.length)
    (curr : OptionField) (hc : curr ≠ .option) :
    curr.bytes b.message = (frame.drop (messageOffset + curr.base)).take curr.length := by
  have hin : messageOffset + curr.base + curr.length ≤ optionsOffset := by
    cases curr with
    | option => exact absurd rfl hc
    | file => decide
    | sname => decide
  have hlen : curr.length ≤ messageSize - curr.base := by
    have hle := curr.base_add_length_le
    omega
  change ((((frame ++ b.tail).drop messageOffset).take messageSize).drop curr.base).take _ = _
  rw [drop_take, take_take, min_eq_left hlen, drop_drop,
    drop_append_of_le_length (by omega), take_append_of_le_length]
  rw [length_drop]
  omega

theorem RxBuffer.field_eq :
    b.field = frameOptions frame ++ (b.tail.drop (optionsOffset - frame.length)).take
      (optionLen - (frame.drop optionsOffset).length) := by
  rw [RxBuffer.field, RxBuffer.options, drop_append, take_append]
  rfl

theorem RxBuffer.exists_options_eq : ∃ t, b.options = frameOptions frame ++ t := by
  have h : b.options = b.field ++ b.options.drop optionLen := (take_append_drop _ _).symm
  rw [b.field_eq, append_assoc] at h
  exact ⟨_, h⟩

end

theorem length_frameOptions_le (frame : List UInt8) : (frameOptions frame).length ≤ optionLen :=
  length_take_le _ _

/-! ## Frames with an end -/

section

variable {items : List DhcpOption} {rest : List UInt8}
  (h : Closed items rest (frameOptions frame))

include h

theorem optionsOffset_le_of_closed : optionsOffset ≤ frame.length := by
  by_contra hlt
  have hn : frameOptions frame = [] := by
    rw [frameOptions, drop_of_length_le (by omega), take_nil]
  rw [hn] at h
  exact absurd h (by simp [Closed])

theorem length_encode_lt_of_closed : (encode items).length < optionLen :=
  h.length_lt.trans_le (length_frameOptions_le frame)

theorem RxBuffer.exists_closed_field (b : RxBuffer frame) :
    ∃ rest, Closed items rest b.field := by
  rw [b.field_eq]
  exact ⟨_, h.append _⟩

theorem getOptionLoop_message_congr (b b' : RxBuffer frame) (code : UInt8) (fuel : ℕ) :
    getOptionLoop b.message code fuel .option 0 0 =
      getOptionLoop b'.message code fuel .option 0 0 := by
  have ho := optionsOffset_le_of_closed h
  obtain ⟨rest₁, hc⟩ := b.exists_closed_field h
  obtain ⟨rest₂, hc'⟩ := b'.exists_closed_field h
  rw [← b.option_bytes_message] at hc
  rw [← b'.option_bytes_message] at hc'
  have hf := (b.bytes_message ho .file (by decide)).trans
    (b'.bytes_message ho .file (by decide)).symm
  have hsn := (b.bytes_message ho .sname (by decide)).trans
    (b'.bytes_message ho .sname (by decide)).symm
  exact getOptionLoop_congr (i := 0) code 0 hf hsn (fun _ => ⟨items, rest₁, rest₂, hc, hc'⟩) fuel

theorem endOption_frameOptions_append (t : List UInt8) :
    npdDhcpSnpEndOption (frameOptions frame ++ t) = .ok (encode items).length :=
  endOption_eq_ok_iff.mpr ⟨items, _, h.append t, rfl⟩

theorem removeOpt82_frameOptions_append (code : UInt8) (t : List UInt8) :
    npdDhcpSnpRemoveOpt82 (frameOptions frame ++ t) code (encode items).length = .ok (.ok,
      reclose (frameOptions frame) 0 (items.eraseP (hasCode code)) ++ t,
      (encode items).length - (encode (items.eraseP (hasCode code))).length) := by
  have hls := length_encode_le (eraseP_sublist (p := hasCode code) (l := items))
  rw [removeOpt82_of_closed code (h.append t) (length_encode_lt_of_closed h),
    reclose_append (hls.trans_lt h.length_lt)]

theorem scansInPacket_of_closed : ScansInPacket frame where
  search code := by
    refine ⟨npdDhcpSnpGetOption (zeroBuffer frame).message code, fun b => ?_⟩
    have hlp := getOptionLoop_message_congr h b (zeroBuffer frame) code
      (option.rounds 0)
    rw [getOptionLoop_eq (zeroBuffer frame).message] at hlp
    have hf := Option.some.inj ((getOptionLoop_eq b.message code).symm.trans hlp)
    refine ⟨hlp, hf, ?_⟩
    rw [npdDhcpSnpCheckOpt82, hf]
  end_option := by
    refine ⟨(encode items).length, fun b => ⟨?_, ?_⟩⟩
    · rw [b.field_eq, endOption_frameOptions_append h]
    · obtain ⟨t, ht⟩ := b.exists_options_eq
      rw [ht, endOption_frameOptions_append h]
  remove code := by
    have hls := length_encode_le (eraseP_sublist (p := hasCode code) (l := items))
    have hlen := length_reclose (hls.trans_lt h.length_lt)
    refine ⟨.ok, reclose (frameOptions frame) 0 (items.eraseP (hasCode code)),
      (encode items).length - (encode (items.eraseP (hasCode code))).length, hlen,
      fun b stop hsp => ?_⟩
    -- The function is told the end that the closed options have.
    obtain ⟨t, ht⟩ := b.exists_options_eq
    rw [ht, endOption_frameOptions_append h] at hsp
    cases hsp
    constructor
    · rw [b.field_eq, removeOpt82_frameOptions_append h, hlen, drop_left]
    · rw [ht, removeOpt82_frameOptions_append h, hlen, drop_left]

end

theorem exists_closed_of_zeroBuffer {stop : ℕ}
    (h : npdDhcpSnpEndOption (zeroBuffer frame).field = .ok stop) :
    ∃ items : List DhcpOption, ∃ rest, Closed items rest (frameOptions frame) := by
  obtain ⟨items, rest, hc, -⟩ := endOption_eq_ok_iff.mp h
  rw [RxBuffer.field_eq] at hc
  refine ⟨items, closed_of_closed_append (fun hme => ?_) hc⟩
  have hz := eq_of_mem_replicate (mem_of_mem_drop (mem_of_mem_take hme))
  exact absurd hz (by decide)

end

/-- The option walks stay in the packet exactly when they come to a `DHCP_END` in the part of the
field that the frame holds. -/
theorem scansInPacket_iff (frame : List UInt8) :
    ScansInPacket frame ↔
      ∃ items : List DhcpOption, ∃ rest, Closed items rest (frameOptions frame) := by
  constructor
  · intro h
    obtain ⟨stop, hstop⟩ := h.end_option
    exact exists_closed_of_zeroBuffer (hstop (zeroBuffer frame)).1
  · rintro ⟨items, rest, hclosed⟩
    exact scansInPacket_of_closed hclosed

def openFrame : List UInt8 := replicate optionsOffset 0 ++ [dhcpMessageType, 1, 1]

/-- For that frame the walks go on into what follows the frame. -/
theorem scansInPacket_openFrame : ¬ScansInPacket openFrame := by
  intro h
  obtain ⟨stop, hstop⟩ := h.end_option
  obtain ⟨items, rest, hclosed⟩ := exists_closed_of_zeroBuffer (hstop (zeroBuffer openFrame)).1
  have hbytes : frameOptions openFrame = [dhcpMessageType, 1, 1] := by decide +kernel
  have hmem : dhcpEnd ∈ frameOptions openFrame := by
    rw [hclosed]
    exact mem_append_right _ mem_cons_self
  rw [hbytes] at hmem
  exact absurd hmem (by decide)

end Chanos.Dhcp

import Chanos.Dhcp.Opt82
import Chanos.Lib.Except

/-!
# Whether option 82 is rewritten exactly

`Opt82Exact` says what the processing of option 82 is for, on a packet whose options are closed
inside their field. A request whose port replaces the option is left with all its other options in
order and then the option of this switch, or is dropped when there is no room for that. The code
does this for some packets only (`opt82Exact_iff`).
-/

namespace Chanos.Dhcp

open Lib Database List Tlv UInt16
variable {delta : ℤ}

theorem eraseP_eq_filter_iff {α : Type*} (p : α → Bool) (l : List α) :
    l.eraseP p = l.filter (fun a => !p a) ↔ l.countP p ≤ 1 := by
  induction l with
  | nil => simp
  | cons a l ih =>
    by_cases ha : p a = true
    · have hno : l = l.filter (fun a => !p a) ↔ l.countP p = 0 := by
        rw [eq_comm, filter_eq_self, countP_eq_zero]
        exact forall₂_congr fun b _ => by simp
      rw [eraseP_cons_of_pos ha, filter_cons_of_neg (by simp [ha]), hno, countP_cons_of_pos ha]
      omega
    · rw [eraseP_cons_of_neg ha, filter_cons_of_pos (by simp [ha]),
        countP_cons_of_neg ha, cons_inj_right, ih]

theorem filter_sublist_eraseP {α : Type*} (p : α → Bool) (l : List α) :
    (l.filter (fun a => !p a)).Sublist (l.eraseP p) := by
  induction l with
  | nil => simp
  | cons a l ih =>
    by_cases ha : p a = true
    · rw [eraseP_cons_of_pos ha, filter_cons_of_neg (by simp [ha])]
      exact filter_sublist
    · rw [eraseP_cons_of_neg ha, filter_cons_of_pos (by simp [ha])]
      exact ih.cons_cons a

def otherOptions (items : List DhcpOption) : List DhcpOption :=
  items.filter fun a => !a.hasCode dhcpOption82

def countOpt82 (items : List DhcpOption) : ℕ := items.countP (hasCode dhcpOption82)

def bytesDelta (items items' : List DhcpOption) : ℤ :=
  (encode items').length - (encode items).length

structure LengthsChanged (packet packet' : PacketBuf) (delta : ℤ) : Prop where
  udp_len : (packet'.udp.len.toNat : ℤ) = packet.udp.len.toNat + delta
  tot_len : (packet'.ip.tot_len.toNat : ℤ) = packet.ip.tot_len.toNat + delta
  bufflen : (packet'.bufflen : ℤ) = packet.bufflen + delta

structure Rewritten (packet packet' : PacketBuf) (items items' : List DhcpOption) : Prop where
  options : ∃ rest, Closed items' rest (packet'.options.take optionLen)
  lengths : LengthsChanged packet packet' (bytesDelta items items')

def FitsField (items : List DhcpOption) : Prop := (encode items).length + 1 ≤ optionLen

structure Opt82Exact (e : Endian) (env : Opt82Env) (user : Opt82GlobalStatus) (vid : UInt16)
    (ifindex : UInt32) (packet : DhcpFrame) (option_enable_flag : ℤ) (items : List DhcpOption) :
    Prop where
  replace : packet.dhcp.op = bootrequest →
    npdDhcpSnpGetOpt82PortStrategy env ifindex = strategyReplace →
    FitsField (otherOptions items ++ [localOption env user ifindex vid]) →
    ∃ packet', npdDhcpPacketInformationProcess e env vid ifindex packet option_enable_flag =
        .ok (.ok, packet') ∧
      Rewritten packet.toPacketBuf packet' items
        (otherOptions items ++ [localOption env user ifindex vid])
  reject : packet.dhcp.op = bootrequest →
    npdDhcpSnpGetOpt82PortStrategy env ifindex = strategyReplace →
    ¬FitsField (otherOptions items ++ [localOption env user ifindex vid]) →
    ∃ packet', npdDhcpPacketInformationProcess e env vid ifindex packet option_enable_flag =
        .ok (.pktDrop, packet')
  drop : packet.dhcp.op = bootrequest →
    npdDhcpSnpGetOpt82PortStrategy env ifindex = strategyDrop →
    ∃ packet', npdDhcpPacketInformationProcess e env vid ifindex packet option_enable_flag =
        .ok (.ok, packet') ∧
      Rewritten packet.toPacketBuf packet' items (otherOptions items)
  reply : packet.dhcp.op = bootreply →
    ∃ packet', npdDhcpPacketInformationProcess e env vid ifindex packet option_enable_flag =
        .ok (.ok, packet') ∧
      Rewritten packet.toPacketBuf packet' items (otherOptions items)

/-! ## When the lengths come out right -/

/-- The lengths of a packet can take a difference, and a datagram that has a checksum lies in the
memory of the packet. -/
structure LengthsFit (env : Opt82Env) (packet : PacketBuf) (delta : ℤ) : Prop where
  udp_len : 0 ≤ packet.udp.len.toNat + delta ∧ packet.udp.len.toNat + delta < 2 ^ 16
  bufflen : 0 ≤ packet.bufflen + delta ∧ packet.bufflen + delta < 2 ^ env.long_bits
  in_memory : packet.udp.check ≠ 0 → packet.udp.len.toNat + delta ≤ 248 + packet.options.length

theorem changeLen_eq_iff {bits n : ℕ} :
    (changeLen bits n delta : ℤ) = n + delta ↔ 0 ≤ n + delta ∧ n + delta < 2 ^ bits := by
  have hp : (0 : ℤ) < 2 ^ bits := by positivity
  have hc : (changeLen bits n delta : ℤ) = (n + delta) % 2 ^ bits := by
    rw [changeLen, Int.toNat_of_nonneg (Int.emod_nonneg _ hp.ne')]
  rw [hc]
  constructor
  · intro h
    rw [← h]
    exact ⟨Int.emod_nonneg _ hp.ne', Int.emod_lt_of_pos _ hp⟩
  · rintro ⟨h0, h1⟩
    exact Int.emod_eq_of_lt h0 h1

theorem changeLen_lt (n : ℕ) (delta : ℤ) : changeLen 16 n delta < 2 ^ 16 := by
  rw [changeLen]
  omega

section

variable {e : Endian} {env : Opt82Env} {packet : PacketBuf} {options : List UInt8} {delta : ℤ}
  {tot_len : UInt16}

def changedUdp (packet : PacketBuf) (delta : ℤ) : UdpHdr :=
  { packet.udp with len := ofNat (changeLen 16 packet.udp.len.toNat delta) }

theorem toNat_changedUdp_len (packet : PacketBuf) (delta : ℤ) :
    (changedUdp packet delta).len.toNat = changeLen 16 packet.udp.len.toNat delta := by
  rw [changedUdp, toNat_ofNat', Nat.mod_eq_of_lt (changeLen_lt _ _)]

theorem setLengths_eq (e : Endian) (env : Opt82Env) (packet : PacketBuf) (options : List UInt8)
    (delta : ℤ) (tot_len : UInt16) :
    setLengths e env packet options delta tot_len =
      npdDhcpInformationChecksum e ({ packet.ip with tot_len } : IpHdr) (changedUdp packet delta)
        (packet.fixed.toList ++ options) >>= fun r =>
          .ok (.ok, { packet with
            ip := r.1
            udp := r.2
            options
            bufflen := changeLen env.long_bits packet.bufflen delta }) := rfl

theorem setLengths_cases (e : Endian) (env : Opt82Env) (packet : PacketBuf) (options : List UInt8)
    (delta : ℤ) (tot_len : UInt16) :
    (∃ packet', setLengths e env packet options delta tot_len = .ok (.ok, packet') ∧
      (packet.udp.check ≠ 0 → changeLen 16 packet.udp.len.toNat delta ≤ 248 + options.length) ∧
      packet'.ip.tot_len = tot_len ∧
      packet'.udp.len.toNat = changeLen 16 packet.udp.len.toNat delta ∧
      packet'.bufflen = changeLen env.long_bits packet.bufflen delta) ∨
    setLengths e env packet options delta tot_len = .error .outOfBounds ∧ packet.udp.check ≠ 0 ∧
      248 + options.length < changeLen 16 packet.udp.len.toNat delta := by
  have hse := setLengths_eq e env packet options delta tot_len
  have hlen : 8 + (packet.fixed.toList ++ options).length = 248 + options.length := by
    rw [length_append, Vector.toList_length]
    omega
  rcases informationChecksum_cases e ({ packet.ip with tot_len } : IpHdr)
    (changedUdp packet delta) (packet.fixed.toList ++ options) with
    ⟨c, c', hrun, hme, -⟩ | ⟨hrun, hu, hme⟩
  all_goals
    rw [hrun] at hse
    rw [hlen, toNat_changedUdp_len] at hme
  · exact .inl ⟨_, hse, hme, rfl, toNat_changedUdp_len packet delta, rfl⟩
  · exact .inr ⟨hse, hu, hme⟩

theorem setLengths_changed_iff (ho : options.length = packet.options.length) :
    (∃ packet', setLengths e env packet options delta tot_len = .ok (.ok, packet') ∧
      LengthsChanged packet packet' delta) ↔
    LengthsFit env packet delta ∧ (tot_len.toNat : ℤ) = packet.ip.tot_len.toNat + delta := by
  rcases setLengths_cases e env packet options delta tot_len with
    ⟨packet', hrun, hme, ht, hud, hb⟩ | ⟨hrun, hu, hlt⟩
  · constructor
    · rintro ⟨packet₁, hrun₁, hc⟩
      obtain ⟨-, rfl⟩ := Prod.mk.inj (Except.ok.inj (hrun₁.symm.trans hrun))
      have hlen := hc.udp_len
      rw [hud] at hlen
      refine ⟨⟨changeLen_eq_iff.mp hlen, changeLen_eq_iff.mp (hb ▸ hc.bufflen),
        fun hu => ?_⟩, ht ▸ hc.tot_len⟩
      have hle := hme hu
      omega
    · rintro ⟨hf, ht'⟩
      refine ⟨packet', hrun, ?_, ht ▸ ht', ?_⟩
      · rw [hud]
        exact changeLen_eq_iff.mpr hf.udp_len
      · rw [hb]
        exact changeLen_eq_iff.mpr hf.bufflen
  · refine iff_of_false ?_ ?_
    · rintro ⟨packet', hrun', -⟩
      cases hrun.symm.trans hrun'
    · rintro ⟨hf, -⟩
      have hle := hf.in_memory hu
      have hlen := changeLen_eq_iff.mpr hf.udp_len
      omega

theorem setLengths_options {ret : OptReturn} {packet' : PacketBuf}
    (h : setLengths e env packet options delta tot_len = .ok (ret, packet')) :
    packet'.options = options := by
  rw [setLengths_eq] at h
  obtain ⟨r, -, h⟩ := bind_eq_ok.mp h
  cases h
  rfl

theorem setLengths_rewritten_iff {items kept items' : List DhcpOption} {rest : List UInt8}
    (ho : options.length = packet.options.length)
    (hclosed : Closed kept rest (options.take optionLen)) (tot_len : ℤ → UInt16) :
    (∃ packet', setLengths e env packet options (bytesDelta items kept)
        (tot_len (bytesDelta items kept)) = .ok (.ok, packet') ∧
      Rewritten packet packet' items items') ↔
    kept = items' ∧ LengthsFit env packet (bytesDelta items items') ∧
      ((tot_len (bytesDelta items items')).toNat : ℤ) =
        packet.ip.tot_len.toNat + bytesDelta items items' := by
  constructor
  · rintro ⟨packet', hrun, ⟨rest', hclosed'⟩, hc⟩
    rw [setLengths_options hrun] at hclosed'
    obtain rfl := hclosed.unique dhcpPadding_ne_dhcpEnd hclosed'
    exact ⟨rfl, (setLengths_changed_iff ho).mp ⟨packet', hrun, hc⟩⟩
  · rintro ⟨rfl, hf⟩
    obtain ⟨packet', hrun, hc⟩ := (setLengths_changed_iff (e := e) ho).mpr hf
    refine ⟨packet', hrun, ⟨rest, ?_⟩, hc⟩
    rw [setLengths_options hrun]
    exact hclosed

theorem setLengths_bind (e : Endian) (env : Opt82Env) (packet : PacketBuf) (options : List UInt8)
    (delta : ℤ) (tot_len : UInt16) :
    (do
      let (ret, packet) ← setLengths e env packet options delta tot_len
      if ret ≠ .ok then .ok (.pktDrop, packet) else .ok (.ok, packet)) =
    setLengths e env packet options delta tot_len := by
  rw [setLengths_eq, bind_assoc]
  rfl

end

structure RequestFits (env : Opt82Env) (packet : PacketBuf) (delta : ℤ) : Prop
    extends LengthsFit env packet delta where
  tot_len : (packet.udp.len.toNat + delta + 20) % 2 ^ 16 = packet.ip.tot_len.toNat + delta

structure ReplyFits (env : Opt82Env) (packet : PacketBuf) (delta : ℤ) : Prop
    extends LengthsFit env packet delta where
  tot_len : 0 ≤ packet.ip.tot_len.toNat + delta ∧ packet.ip.tot_len.toNat + delta < 2 ^ 16

/-- When the processing of option 82 is exact: there is at most one option 82 to take out, the new
options end before the last byte of the field, and the lengths come out right. -/
structure Opt82Fits (env : Opt82Env) (user : Opt82GlobalStatus) (vid : UInt16) (ifindex : UInt32)
    (packet : DhcpFrame) (items : List DhcpOption) : Prop where
  replace : packet.dhcp.op = bootrequest →
    npdDhcpSnpGetOpt82PortStrategy env ifindex = strategyReplace →
    FitsField (otherOptions items ++ [localOption env user ifindex vid]) →
    countOpt82 items ≤ 1 ∧
      (encode (otherOptions items ++ [localOption env user ifindex vid])).length + 1 <
        optionLen ∧
      RequestFits env packet.toPacketBuf
        (bytesDelta items (otherOptions items ++ [localOption env user ifindex vid]))
  drop : packet.dhcp.op = bootrequest →
    npdDhcpSnpGetOpt82PortStrategy env ifindex = strategyDrop →
    npdDhcpSnpCheckOpt82 packet.dhcp dhcpOption82 = true →
    countOpt82 items ≤ 1 ∧
      RequestFits env packet.toPacketBuf (bytesDelta items (otherOptions items))
  reply : packet.dhcp.op = bootreply →
    countOpt82 items ≤ 1 ∧ ReplyFits env packet.toPacketBuf (bytesDelta items (otherOptions items))

theorem requestFits_iff {env : Opt82Env} {packet : PacketBuf} :
    (LengthsFit env packet delta ∧
      ((requestTotLen packet delta).toNat : ℤ) = packet.ip.tot_len.toNat + delta) ↔
    RequestFits env packet delta := by
  have hc : ((requestTotLen packet delta).toNat : ℤ) =
      (packet.udp.len.toNat + delta + 20) % 2 ^ 16 := by
    rw [requestTotLen, toNat_ofNat', changeLen, sizeofIphdr]
    omega
  rw [hc]
  exact ⟨fun h => ⟨h.1, h.2⟩, fun h => ⟨h.toLengthsFit, h.tot_len⟩⟩

theorem replyFits_iff {env : Opt82Env} {packet : PacketBuf} :
    (LengthsFit env packet delta ∧
      ((replyTotLen packet delta).toNat : ℤ) = packet.ip.tot_len.toNat + delta) ↔
    ReplyFits env packet delta := by
  have hc : (replyTotLen packet delta).toNat = changeLen 16 packet.ip.tot_len.toNat delta := by
    rw [replyTotLen, toNat_ofNat', Nat.mod_eq_of_lt (changeLen_lt _ _)]
  rw [hc, changeLen_eq_iff]
  exact ⟨fun h => ⟨h.1, h.2⟩, fun h => ⟨h.toLengthsFit, h.tot_len⟩⟩

/-! ## What is removed and attached -/

def firstRemoved (items : List DhcpOption) : List DhcpOption :=
  items.eraseP (hasCode dhcpOption82)

section

variable (items : List DhcpOption)

theorem firstRemoved_eq_iff :
    firstRemoved items = otherOptions items ↔ countOpt82 items ≤ 1 := eraseP_eq_filter_iff _ items

theorem length_otherOptions_le :
    (encode (otherOptions items)).length ≤ (encode (firstRemoved items)).length :=
  length_encode_le (filter_sublist_eraseP _ items)

theorem length_firstRemoved_le : (encode (firstRemoved items)).length ≤ (encode items).length :=
  length_encode_le (eraseP_sublist)

end

section

variable (env : Opt82Env) (user : Opt82GlobalStatus) (vid : UInt16) (ifindex : UInt32)

theorem length_encode_append_local (items : List DhcpOption) :
    (encode (items ++ [localOption env user ifindex vid])).length + 1 =
      (encode items).length + (localSubOptions env user ifindex vid).length + 3 := by
  rw [encode_append, length_append, localOption, length_encode_opt, encode_nil, length_nil]
  omega

theorem attachOpt82String_options (mem : List UInt8) (items : List DhcpOption) :
    npdDhcpSnpAttachOpt82String (reclose mem 0 items)
        (dhcpOption82 :: UInt8.ofNat (localSubOptions env user ifindex vid).length ::
          localSubOptions env user ifindex vid) =
      if optionLen ≤
          (encode (items ++ [localOption env user ifindex vid])).length + 1 then
        .ok (.error, reclose mem 0 items)
      else
        .ok (.ok, reclose (reclose mem 0 items) 0
          (items ++ [localOption env user ifindex vid])) := by
  rw [length_encode_append_local]
  exact attachOpt82String_of_closed (closed_reclose _ _) (by decide) (by decide)
    (length_localSubOptions_lt env user ifindex vid)

end

theorem neg_removed_eq :
    -(((encode items).length - (encode (firstRemoved items)).length : ℕ) : ℤ) =
      bytesDelta items (firstRemoved items) := by
  have hle := length_firstRemoved_le items
  rw [bytesDelta]
  omega

section

variable {e : Endian} {env : Opt82Env} {user : Opt82GlobalStatus} {vid : UInt16} {ifindex : UInt32}
  {packet : DhcpFrame} {option_enable_flag : ℤ} {items : List DhcpOption} {rest : List UInt8}
  (hclosed : Closed items rest (packet.options.take optionLen))

theorem DhcpFrame.option_bytes_dhcp (packet : DhcpFrame) :
    OptionField.option.bytes packet.dhcp = packet.options.take optionLen := by
  change ((packet.fixed.toList ++ packet.options.take optionLen).drop 240).take 1500 = _
  rw [drop_left' (Vector.toList_length _), take_take]
  rfl

include hclosed

theorem length_encode_lt_optionLen : (encode items).length < optionLen := by
  have hlt := hclosed.length_lt
  rw [length_take] at hlt
  omega

theorem exists_closed_options : ∃ rest', Closed items rest' packet.options := by
  have happ := hclosed.append (packet.options.drop optionLen)
  rw [take_append_drop] at happ
  exact ⟨_, happ⟩

theorem endOption_options : npdDhcpSnpEndOption packet.options = .ok (encode items).length := by
  obtain ⟨rest', hme⟩ := exists_closed_options hclosed
  exact endOption_eq_ok_iff.mpr ⟨items, rest', hme, rfl⟩

theorem removeOpt82_options :
    npdDhcpSnpRemoveOpt82 packet.options dhcpOption82 (encode items).length =
      .ok (.ok, reclose packet.options 0 (firstRemoved items),
        (encode items).length - (encode (firstRemoved items)).length) := by
  obtain ⟨rest', hme⟩ := exists_closed_options hclosed
  exact removeOpt82_of_closed _ hme (length_encode_lt_optionLen hclosed)

theorem firstRemoved_closed :
    (reclose packet.options 0 (firstRemoved items)).length = packet.options.length ∧
      ∃ rest', Closed (firstRemoved items) rest'
        ((reclose packet.options 0 (firstRemoved items)).take optionLen) := by
  have hlt := (length_firstRemoved_le items).trans_lt (length_encode_lt_optionLen hclosed)
  exact ⟨length_reclose (hlt.trans_le packet.room), (closed_reclose _ _).exists_take hlt⟩

variable (hflag : option_enable_flag ≠ 0) (hop : packet.dhcp.op = bootrequest)

include hflag in
theorem process_reply (hop : packet.dhcp.op = bootreply) :
    npdDhcpPacketInformationProcess e env vid ifindex packet option_enable_flag =
      setLengths e env packet.toPacketBuf (reclose packet.options 0 (firstRemoved items))
        (bytesDelta items (firstRemoved items))
        (replyTotLen packet.toPacketBuf (bytesDelta items (firstRemoved items))) := by
  have hn : packet.dhcp.op ≠ bootrequest := by
    rw [hop]
    decide
  rw [npdDhcpPacketInformationProcess, if_neg hflag, if_neg hn, if_pos hop,
    endOption_options hclosed]
  simp only [bind, Except.bind, removeOpt82_options hclosed, ne_eq, not_true_eq_false,
    if_false, neg_removed_eq]

include hflag hop in
theorem process_drop (hstg : npdDhcpSnpGetOpt82PortStrategy env ifindex = strategyDrop)
    (hc : npdDhcpSnpCheckOpt82 packet.dhcp dhcpOption82 = true) :
    npdDhcpPacketInformationProcess e env vid ifindex packet option_enable_flag =
      setLengths e env packet.toPacketBuf (reclose packet.options 0 (firstRemoved items))
        (bytesDelta items (firstRemoved items))
        (requestTotLen packet.toPacketBuf (bytesDelta items (firstRemoved items))) := by
  rw [npdDhcpPacketInformationProcess, if_neg hflag, if_pos hop, npdDhcpSnpAttachOpt82, hstg,
    if_neg (by decide), if_pos rfl, if_pos hc, endOption_options hclosed]
  simp only [bind, Except.bind, removeOpt82_options hclosed, ne_eq, not_true_eq_false,
    if_false, neg_removed_eq]
  exact setLengths_bind ..

theorem countOpt82_eq_zero (hc : npdDhcpSnpCheckOpt82 packet.dhcp dhcpOption82 = false) :
    countOpt82 items = 0 := by
  by_contra hcn
  have han : items.any (hasCode dhcpOption82) = true := by
    obtain ⟨a, ha, hcd⟩ := countP_pos_iff.mp (Nat.pos_of_ne_zero hcn)
    exact any_eq_true.mpr ⟨a, ha, hcd⟩
  rw [← packet.option_bytes_dhcp] at hclosed
  rw [checkOpt82_of_closed _ hclosed han] at hc
  cases hc

theorem removeFound_eq :
    removeFound packet = .ok (.ok, reclose packet.options 0 (firstRemoved items),
      (encode items).length - (encode (firstRemoved items)).length) := by
  rw [removeFound]
  cases hc : npdDhcpSnpCheckOpt82 packet.dhcp dhcpOption82 with
  | true =>
    rw [if_pos rfl, endOption_options hclosed]
    exact removeOpt82_options hclosed
  | false =>
    -- There is none in the options, so that nothing would be removed.
    have hsm : firstRemoved items = items := by
      have hno := countOpt82_eq_zero hclosed hc
      exact eraseP_of_forall_not (countP_eq_zero.mp hno)
    obtain ⟨rest', hme⟩ := exists_closed_options hclosed
    rw [if_neg (by decide), hsm, Nat.sub_self, reclose_self items hme]

include hflag hop in
theorem process_replace (hstg : npdDhcpSnpGetOpt82PortStrategy env ifindex = strategyReplace)
    (hcfg : env.global_cfg = some user) :
    npdDhcpPacketInformationProcess e env vid ifindex packet option_enable_flag =
      if optionLen ≤
          (encode (firstRemoved items ++ [localOption env user ifindex vid])).length + 1 then
        .ok (.pktDrop, { packet.toPacketBuf with
          options := reclose packet.options 0 (firstRemoved items) })
      else
        setLengths e env packet.toPacketBuf
          (reclose (reclose packet.options 0 (firstRemoved items)) 0
            (firstRemoved items ++ [localOption env user ifindex vid]))
          (bytesDelta items (firstRemoved items ++ [localOption env user ifindex vid]))
          (requestTotLen packet.toPacketBuf
            (bytesDelta items (firstRemoved items ++ [localOption env user ifindex vid]))) := by
  have hd : -(((encode items).length - (encode (firstRemoved items)).length : ℕ) : ℤ) +
      (localSubOptions env user ifindex vid).length + 2 =
        bytesDelta items (firstRemoved items ++ [localOption env user ifindex vid]) := by
    have hlen := length_encode_append_local env user vid ifindex (firstRemoved items)
    rw [neg_removed_eq, bytesDelta, bytesDelta]
    omega
  have hsr := catOpt82Sting_eq env user ifindex vid
  have hlen : (UInt8.ofNat (localSubOptions env user ifindex vid).length).toNat =
      (localSubOptions env user ifindex vid).length :=
    toNat_ofNat_length (length_localSubOptions_lt env user ifindex vid)
  rw [npdDhcpPacketInformationProcess, if_neg hflag, if_pos hop, npdDhcpSnpAttachOpt82,
    if_pos hstg, npdDhcpSnpGetOpt82PortCircuitid, npdDhcpSnpGetOpt82PortRemoteid, hcfg]
  simp only [Option.map_some, hsr, removeFound_eq hclosed, bind, Except.bind, ne_eq,
    not_true_eq_false, if_false, attachOpt82String_options, getD_cons_succ, getD_cons_zero, hlen, hd]
  split_ifs with hf
  · rfl
  · exact setLengths_bind ..

/-! ## When it is exact -/

abbrev LeavesOptions (e : Endian) (env : Opt82Env) (vid : UInt16) (ifindex : UInt32)
    (packet : DhcpFrame) (option_enable_flag : ℤ) (items items' : List DhcpOption) : Prop :=
  ∃ packet', npdDhcpPacketInformationProcess e env vid ifindex packet option_enable_flag =
    .ok (.ok, packet') ∧ Rewritten packet.toPacketBuf packet' items items'

include hflag in
theorem reply_exact_iff (hop : packet.dhcp.op = bootreply) :
    LeavesOptions e env vid ifindex packet option_enable_flag items (otherOptions items) ↔
    countOpt82 items ≤ 1 ∧
      ReplyFits env packet.toPacketBuf (bytesDelta items (otherOptions items)) := by
  obtain ⟨hln, rest', hclosed'⟩ := firstRemoved_closed hclosed
  rw [LeavesOptions, process_reply hclosed hflag hop, setLengths_rewritten_iff hln hclosed',
    firstRemoved_eq_iff, replyFits_iff]

include hflag hop in
theorem drop_exact_iff (hstg : npdDhcpSnpGetOpt82PortStrategy env ifindex = strategyDrop) :
    LeavesOptions e env vid ifindex packet option_enable_flag items (otherOptions items) ↔
    (npdDhcpSnpCheckOpt82 packet.dhcp dhcpOption82 = true → countOpt82 items ≤ 1 ∧
      RequestFits env packet.toPacketBuf (bytesDelta items (otherOptions items))) := by
  cases hc : npdDhcpSnpCheckOpt82 packet.dhcp dhcpOption82 with
  | true =>
    obtain ⟨hln, rest', hclosed'⟩ := firstRemoved_closed hclosed
    rw [LeavesOptions, process_drop hclosed hflag hop hstg hc,
      setLengths_rewritten_iff hln hclosed', firstRemoved_eq_iff, requestFits_iff]
    exact ⟨fun h _ => h, fun h => h rfl⟩
  | false =>
    -- The packet is left as it is, and it has no option 82.
    refine iff_of_true ⟨packet.toPacketBuf, ?_, ?_⟩ nofun
    · rw [npdDhcpPacketInformationProcess, if_neg hflag, if_pos hop, npdDhcpSnpAttachOpt82,
        hstg, if_neg (by decide), if_pos rfl, hc]
      rfl
    · have hsm : otherOptions items = items := by
        have hno := countP_eq_zero.mp (countOpt82_eq_zero hclosed hc)
        exact filter_eq_self.mpr fun a ha => by simp [hno a ha]
      rw [hsm]
      refine ⟨⟨rest, hclosed⟩, ?_, ?_, ?_⟩ <;> rw [bytesDelta, sub_self, add_zero]

section

variable (hstg : npdDhcpSnpGetOpt82PortStrategy env ifindex = strategyReplace)
  (hcfg : env.global_cfg = some user)

include hflag hop hstg hcfg

theorem replace_exact_iff :
    LeavesOptions e env vid ifindex packet option_enable_flag items
      (otherOptions items ++ [localOption env user ifindex vid]) ↔
    countOpt82 items ≤ 1 ∧
      (encode (otherOptions items ++ [localOption env user ifindex vid])).length + 1 < optionLen ∧
      RequestFits env packet.toPacketBuf
        (bytesDelta items (otherOptions items ++ [localOption env user ifindex vid])) := by
  have hls := length_otherOptions_le items
  have hkt := length_encode_append_local env user vid ifindex (firstRemoved items)
  have hot := length_encode_append_local env user vid ifindex (otherOptions items)
  rw [LeavesOptions, process_replace hclosed hflag hop hstg hcfg]
  split_ifs with hf
  · refine iff_of_false ?_ ?_
    · rintro ⟨packet', hrun, -⟩
      exact absurd (Prod.mk.inj (Except.ok.inj hrun)).1 (by decide)
    · rintro ⟨ho, hlt, -⟩
      rw [(firstRemoved_eq_iff items).mpr ho] at hf
      omega
  · obtain ⟨hln, -⟩ := firstRemoved_closed hclosed
    have hlt : (encode (firstRemoved items ++ [localOption env user ifindex vid])).length <
        optionLen := by omega
    obtain ⟨rest', hclosed'⟩ := (closed_reclose (reclose packet.options 0 (firstRemoved items))
      (firstRemoved items ++ [localOption env user ifindex vid])).exists_take hlt
    have hln' := length_reclose (hlt.trans_le (packet.room.trans hln.ge))
    rw [setLengths_rewritten_iff (hln'.trans hln) hclosed', append_cancel_right_eq,
      firstRemoved_eq_iff, requestFits_iff]
    refine and_congr_right fun ho => ⟨fun h => ⟨?_, h⟩, fun h => h.2⟩
    rw [← (firstRemoved_eq_iff items).mpr ho]
    omega

theorem replace_reject
    (hf : ¬FitsField (otherOptions items ++ [localOption env user ifindex vid])) :
    ∃ packet', npdDhcpPacketInformationProcess e env vid ifindex packet option_enable_flag =
      .ok (.pktDrop, packet') := by
  have hls := length_otherOptions_le items
  have hkt := length_encode_append_local env user vid ifindex (firstRemoved items)
  have ho := length_encode_append_local env user vid ifindex (otherOptions items)
  rw [FitsField] at hf
  rw [process_replace hclosed hflag hop hstg hcfg, if_pos (by omega)]
  exact ⟨_, rfl⟩

end

/-- The processing of option 82 is exact for the packets that fit, and for no others. -/
theorem opt82Exact_iff (hflag : option_enable_flag ≠ 0) (hcfg : env.global_cfg = some user) :
    Opt82Exact e env user vid ifindex packet option_enable_flag items ↔
      Opt82Fits env user vid ifindex packet items := by
  constructor
  · intro h
    exact {
      replace := fun hop hstrategy hfits =>
        (replace_exact_iff hclosed hflag hop hstrategy hcfg).mp (h.replace hop hstrategy hfits)
      drop := fun hop hstrategy =>
        (drop_exact_iff hclosed hflag hop hstrategy).mp (h.drop hop hstrategy)
      reply := fun hop => (reply_exact_iff hclosed hflag hop).mp (h.reply hop) }
  · intro h
    exact {
      replace := fun hop hstrategy hfits =>
        (replace_exact_iff hclosed hflag hop hstrategy hcfg).mpr (h.replace hop hstrategy hfits)
      reject := fun hop hstrategy hfull =>
        replace_reject hclosed hflag hop hstrategy hcfg hfull
      drop := fun hop hstrategy =>
        (drop_exact_iff hclosed hflag hop hstrategy).mpr (h.drop hop hstrategy)
      reply := fun hop => (reply_exact_iff hclosed hflag hop).mpr (h.reply hop) }

end

/-! ## Replies with options 82 only -/

theorem length_nil_lt : ([] : List UInt8).length < 256 := by decide

def emptyOpt82 : DhcpOption :=
  .opt dhcpOption82 [] dhcpOption82_ne_padding dhcpOption82_ne_end length_nil_lt

def sampleReply (n : ℕ) : DhcpFrame where
  ip := { sampleIpHdr with tot_len := ofNat (20 + 8 + 240 + 2 * n + 1) }
  udp := { sampleUdpHdr with len := ofNat (8 + 240 + 2 * n + 1), check := 0 }
  fixed := ⟨bootreply :: replicate 239 0, by rw [length_cons, length_replicate]⟩
  options := encode (replicate n emptyOpt82) ++ dhcpEnd :: replicate optionLen 0
  bufflen := 14 + 20 + 8 + 240 + 2 * n + 1
  room := by
    rw [length_append, length_cons, length_replicate]
    omega

theorem exists_sampleReply_closed {n : ℕ}
    (h : (encode (replicate n emptyOpt82)).length < optionLen) :
    ∃ rest, Closed (replicate n emptyOpt82) rest ((sampleReply n).options.take optionLen) :=
  (show Closed _ (replicate optionLen 0) (sampleReply n).options from rfl).exists_take h

def sampleUser : Opt82GlobalStatus where
  dhcp_snp_opt82_format_type := formatTypeHex
  dhcp_snp_opt82_fill_format_type := fillFormatTypeExt
  dhcp_snp_opt82_remoteid_type := remoteidTypeSysmac
  dhcp_snp_opt82_remoteid_str := List.Vector.replicate 64 0

def sampleOpt82Env : Opt82Env where
  global_cfg := some sampleUser
  status_item _ := none
  product_mac_address := List.Vector.replicate 6 0
  long_bits := 64

theorem sampleReply_op (n : ℕ) : (sampleReply n).dhcp.op = bootreply := rfl

/-- The processing is exact for the reply with one option 82. -/
theorem opt82Exact_one :
    Opt82Exact .big sampleOpt82Env sampleUser 1 1 (sampleReply 1) 1 [emptyOpt82] := by
  obtain ⟨rest, hclosed⟩ := exists_sampleReply_closed (n := 1) (by decide)
  have hop : (sampleReply 1).dhcp.op ≠ bootrequest := by
    rw [sampleReply_op]
    decide
  refine (opt82Exact_iff hclosed (by decide) rfl).mpr {
    replace := fun h => absurd h hop
    drop := fun h => absurd h hop
    reply := fun _ => ⟨by decide, ⟨by decide, by decide, absurd rfl⟩, by decide⟩ }

/-- The reply with two options 82 keeps the second one. -/
theorem opt82Exact_two :
    ¬Opt82Exact .big sampleOpt82Env sampleUser 1 1 (sampleReply 2) 1 [emptyOpt82, emptyOpt82] := by
  intro h
  obtain ⟨rest, hclosed⟩ := exists_sampleReply_closed (n := 2) (by decide)
  have hfits := (reply_exact_iff hclosed (by decide) (sampleReply_op 2)).mp
    (h.reply (sampleReply_op 2))
  exact absurd hfits.1 (by decide)

end Chanos.Dhcp

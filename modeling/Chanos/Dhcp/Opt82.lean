import Chanos.Dhcp.Checksum
import Chanos.Dhcp.Options
import Chanos.Lib.Decimal

/-!
# Option 82 in the packets that are relayed

`npd_dhcp_packet_information_process` and what it calls. A request gets the option 82 of this
switch, loses the one that it has, or is kept as it is, by the strategy of its port.
-/

namespace Chanos.Dhcp

open Lib Database List UInt8

structure Opt82GlobalStatus where
  dhcp_snp_opt82_format_type : UInt8
  dhcp_snp_opt82_fill_format_type : UInt8
  dhcp_snp_opt82_remoteid_type : UInt8
  dhcp_snp_opt82_remoteid_str : Bytes 64

structure StatusItem where
  opt82_strategy : UInt8
  opt82_circuitid : UInt8
  opt82_circuitid_str : Bytes 64

structure Opt82Env where
  global_cfg : Option Opt82GlobalStatus
  status_item : UInt32 → Option StatusItem
  product_mac_address : Bytes 6
  long_bits : ℕ

def formatTypeHex : UInt8 := 0

def formatTypeAscii : UInt8 := 1

def fillFormatTypeExt : UInt8 := 0

def remoteidTypeSysmac : UInt8 := 3

def circuitidTypeDefault : UInt8 := 0

def circuitidTypeUserstr : UInt8 := 1

def strategyReplace : UInt8 := 0

def strategyDrop : UInt8 := 1

def dhcpCircuitId : UInt8 := 1

def dhcpRemoteId : UInt8 := 2

/-! ## The sub-options -/

def sprintf02d (z : ℤ) : List UInt8 :=
  if z < 0 then 45 :: decimal z.natAbs
  else if (decimal z.natAbs).length < 2 then 48 :: decimal z.natAbs
  else decimal z.natAbs

def hexDigit (d : ℕ) : UInt8 := if d < 10 then ofNat (48 + d) else ofNat (87 + d)

def sprintf2x (b : UInt8) : List UInt8 := [hexDigit (b.toNat / 16), hexDigit (b.toNat % 16)]

def subopt (type : UInt8) (content : List UInt8) : List UInt8 :=
  type :: ofNat content.length :: content

variable (user : Opt82GlobalStatus)

def fillContent (type len : UInt8) (data : List UInt8) : List UInt8 :=
  if user.dhcp_snp_opt82_fill_format_type = fillFormatTypeExt then type :: len :: data else data

def defaultCircuitid (g_eth_index : UInt32) (vlanid : UInt16) : List UInt8 :=
  if user.dhcp_snp_opt82_format_type = formatTypeHex then
    fillContent user 0 8 (Half.bytesBE vlanid ++ [0, 0] ++ Word.bytesBE g_eth_index)
  else if user.dhcp_snp_opt82_format_type = formatTypeAscii then
    let text := sprintf02d vlanid.toNat ++ sprintf02d (signed32 g_eth_index)
    fillContent user 1 (ofNat text.length) text
  else fillContent user 0 8 []

def circuitidStr (item : Option StatusItem) (g_eth_index : UInt32)
    (vlanid : UInt16) : List UInt8 :=
  match item with
  | none => subopt dhcpCircuitId (defaultCircuitid user g_eth_index vlanid)
  | some item =>
    if item.opt82_circuitid = circuitidTypeUserstr then
      subopt dhcpCircuitId (fillContent user 1 64 item.opt82_circuitid_str.toList)
    else if item.opt82_circuitid = circuitidTypeDefault then
      subopt dhcpCircuitId (defaultCircuitid user g_eth_index vlanid)
    else [0, 0]

def remoteidStr (mac : Bytes 6) : List UInt8 :=
  if user.dhcp_snp_opt82_remoteid_type = remoteidTypeSysmac then
    if user.dhcp_snp_opt82_format_type = formatTypeHex then
      subopt dhcpRemoteId (fillContent user 0 6 mac.toList)
    else if user.dhcp_snp_opt82_format_type = formatTypeAscii then
      subopt dhcpRemoteId (fillContent user 1 12 (mac.toList.flatMap sprintf2x))
    else subopt dhcpRemoteId (fillContent user 0 6 [])
  else subopt dhcpRemoteId (fillContent user 1 64 user.dhcp_snp_opt82_remoteid_str.toList)

variable (env : Opt82Env)

def npdDhcpSnpGetOpt82PortStrategy (g_eth_index : UInt32) : UInt8 :=
  match env.status_item g_eth_index with
  | some item => item.opt82_strategy
  | none => strategyReplace

def npdDhcpSnpGetOpt82PortCircuitid (g_eth_index : UInt32) (vlanid : UInt16) :
    Option (List UInt8) :=
  env.global_cfg.map fun user => circuitidStr user (env.status_item g_eth_index) g_eth_index vlanid

def npdDhcpSnpGetOpt82PortRemoteid : Option (List UInt8) :=
  env.global_cfg.map fun user => remoteidStr user env.product_mac_address

def npdDhcpSnpCatOpt82Sting (circuitid_str remoteid_str : List UInt8) : List UInt8 :=
  let circuitid_len := (circuitid_str.getD 1 0).toNat + 2
  let remoteid_len := (remoteid_str.getD 1 0).toNat + 2
  dhcpOption82 :: ofNat (circuitid_len + remoteid_len) ::
    (circuitid_str.take circuitid_len ++ remoteid_str.take remoteid_len)

/-! ## The packet -/

/-- The memory of a packet from the IP header on: the headers, the fields of the message before the
options, and the memory from the options on. -/
structure PacketBuf where
  ip : IpHdr
  udp : UdpHdr
  fixed : Bytes 240
  options : List UInt8
  bufflen : ℕ

structure DhcpFrame extends PacketBuf where
  room : optionLen ≤ options.length

def DhcpFrame.dhcp (packet : DhcpFrame) : DhcpMessage :=
  ⟨packet.fixed.toList ++ packet.options.take optionLen, by
    have h := packet.room
    rw [length_append, Vector.toList_length, length_take, min_eq_left h]
    rfl⟩

def changeLen (bits n : ℕ) (delta : ℤ) : ℕ := ((n + delta) % 2 ^ bits).toNat

def setLengths (e : Endian) (env : Opt82Env) (packet : PacketBuf) (options : List UInt8) (delta : ℤ)
    (tot_len : UInt16) : Except Fault (OptReturn × PacketBuf) := do
  let udp := { packet.udp with len := UInt16.ofNat (changeLen 16 packet.udp.len.toNat delta) }
  let (ip, udp) ← npdDhcpInformationChecksum e { packet.ip with tot_len } udp
    (packet.fixed.toList ++ options)
  .ok (.ok, { packet with ip, udp, options, bufflen := changeLen env.long_bits packet.bufflen delta })

def requestTotLen (packet : PacketBuf) (delta : ℤ) : UInt16 :=
  UInt16.ofNat (changeLen 16 packet.udp.len.toNat delta + sizeofIphdr)

def replyTotLen (packet : PacketBuf) (delta : ℤ) : UInt16 :=
  UInt16.ofNat (changeLen 16 packet.ip.tot_len.toNat delta)

def removeFound (packet : DhcpFrame) : Except Fault (OptReturn × List UInt8 × ℕ) :=
  if npdDhcpSnpCheckOpt82 packet.dhcp dhcpOption82 then do
    let endposition ← npdDhcpSnpEndOption packet.options
    npdDhcpSnpRemoveOpt82 packet.options dhcpOption82 endposition
  else .ok (.ok, packet.options, 0)

def npdDhcpSnpAttachOpt82 (e : Endian) (env : Opt82Env) (packet : DhcpFrame) (ifindex : UInt32)
    (vlanid : UInt16) : Except Fault (OptReturn × PacketBuf) :=
  if npdDhcpSnpGetOpt82PortStrategy env ifindex = strategyReplace then
    match npdDhcpSnpGetOpt82PortCircuitid env ifindex vlanid,
      npdDhcpSnpGetOpt82PortRemoteid env with
    | some circuitid_str, some remoteid_str => do
      let opt82_str := npdDhcpSnpCatOpt82Sting circuitid_str remoteid_str
      let (ret, options, del_len) ← removeFound packet
      if ret ≠ .ok then .ok (.error, { packet.toPacketBuf with options })
      else do
        let (ret, options) ← npdDhcpSnpAttachOpt82String options opt82_str
        if ret ≠ .ok then .ok (.error, { packet.toPacketBuf with options })
        else
          let delta : ℤ := -del_len + (opt82_str.getD 1 0).toNat + 2
          setLengths e env packet.toPacketBuf options delta
            (requestTotLen packet.toPacketBuf delta)
    | _, _ => .ok (.error, packet.toPacketBuf)
  else if npdDhcpSnpGetOpt82PortStrategy env ifindex = strategyDrop then
    if npdDhcpSnpCheckOpt82 packet.dhcp dhcpOption82 then do
      let endposition ← npdDhcpSnpEndOption packet.options
      let (ret, options, del_len) ←
        npdDhcpSnpRemoveOpt82 packet.options dhcpOption82 endposition
      if ret ≠ .ok then .ok (.error, { packet.toPacketBuf with options })
      else
        setLengths e env packet.toPacketBuf options (-del_len)
          (requestTotLen packet.toPacketBuf (-del_len))
    else .ok (.ok, packet.toPacketBuf)
  else .ok (.ok, packet.toPacketBuf)

def bootrequest : UInt8 := 1

def npdDhcpPacketInformationProcess (e : Endian) (env : Opt82Env) (vid : UInt16) (ifindex : UInt32)
    (packet : DhcpFrame) (option_enable_flag : ℤ) : Except Fault (OptReturn × PacketBuf) :=
  if option_enable_flag = 0 then .ok (.ok, packet.toPacketBuf)
  else if packet.dhcp.op = bootrequest then do
    let (ret, packet) ← npdDhcpSnpAttachOpt82 e env packet ifindex vid
    if ret ≠ .ok then .ok (.pktDrop, packet) else .ok (.ok, packet)
  else if packet.dhcp.op = bootreply then do
    let endposition ← npdDhcpSnpEndOption packet.options
    let (ret, options, del_len) ← npdDhcpSnpRemoveOpt82 packet.options dhcpOption82 endposition
    if ret ≠ .ok then .ok (.pktDrop, { packet.toPacketBuf with options })
    else
      setLengths e env packet.toPacketBuf options (-del_len)
        (replyTotLen packet.toPacketBuf (-del_len))
  else .ok (.ok, packet.toPacketBuf)

/-! ## The length of the sub-options -/

theorem length_sprintf02d_le {z : ℤ} (h : z.natAbs < 10 ^ 10) : (sprintf02d z).length ≤ 11 := by
  have hd := length_decimal_le (by decide) h
  rw [sprintf02d]
  split_ifs with hn hsh
  · rw [length_cons]
    omega
  · rw [length_cons]
    omega
  · omega

theorem length_flatMap_sprintf2x (l : List UInt8) : (l.flatMap sprintf2x).length = 2 * l.length := by
  rw [length_flatMap, show (fun b => (sprintf2x b).length) = fun _ => 2 from rfl, map_const',
    sum_replicate, smul_eq_mul, Nat.mul_comm]

/-- A type, a length, and as many bytes as the length says. -/
def Counted : List UInt8 → Prop
  | _ :: len :: data => len.toNat = data.length
  | _ => False

section

variable {content : List UInt8} (type : UInt8)

theorem counted_subopt (h : content.length ≤ 255) : Counted (subopt type content) :=
  Tlv.toNat_ofNat_length (Nat.lt_succ_of_le h)

theorem counted_subopt_le (h : content.length ≤ 66) :
    Counted (subopt type content) ∧ (subopt type content).length ≤ 68 :=
  ⟨counted_subopt type (by omega), Nat.add_le_add_right h 2⟩

end

theorem Counted.getD_one {l : List UInt8} (h : Counted l) :
    (l.getD 1 0).toNat + 2 = l.length := by
  rcases l with _ | ⟨_, _ | ⟨len, data⟩⟩
  · exact h.elim
  · exact h.elim
  · exact congrArg (· + 2) h

section

variable (user : Opt82GlobalStatus)

theorem length_fillContent_le (type len : UInt8) (data : List UInt8) :
    (fillContent user type len data).length ≤ data.length + 2 := by
  rw [fillContent]
  split_ifs with he
  · rfl
  · omega

theorem length_defaultCircuitid_le (g_eth_index : UInt32) (vlanid : UInt16) :
    (defaultCircuitid user g_eth_index vlanid).length ≤ 24 := by
  have hv := vlanid.toNat_lt
  have hi : (signed32 g_eth_index).natAbs < 10 ^ 10 := by
    have hge := Int.le_bmod (x := g_eth_index.toNat) (m := 4294967296) (by norm_num)
    have hlt := Int.bmod_lt (x := g_eth_index.toNat) (m := 4294967296) (by norm_num)
    change ((g_eth_index.toNat : ℤ).bmod 4294967296).natAbs < 10000000000
    omega
  rw [defaultCircuitid]
  split_ifs with hh ha
  · refine (length_fillContent_le ..).trans ?_
    show 8 + 2 ≤ 24
    decide
  · have h1 := length_sprintf02d_le (z := vlanid.toNat) (by omega)
    have h2 := length_sprintf02d_le hi
    refine (length_fillContent_le ..).trans ?_
    rw [length_append]
    omega
  · exact (length_fillContent_le ..).trans (by decide)

theorem counted_circuitidStr (item : Option StatusItem) (g_eth_index : UInt32) (vlanid : UInt16) :
    Counted (circuitidStr user item g_eth_index vlanid) ∧
      (circuitidStr user item g_eth_index vlanid).length ≤ 68 := by
  have hd := length_defaultCircuitid_le user g_eth_index vlanid
  rcases item with _ | item
  · exact counted_subopt_le _ (by omega)
  rw [circuitidStr]
  split_ifs with hu hde
  · refine counted_subopt_le _ ((length_fillContent_le ..).trans ?_)
    rw [Vector.toList_length]
  · exact counted_subopt_le _ (by omega)
  · exact ⟨rfl, by decide⟩

theorem counted_remoteidStr (mac : Bytes 6) :
    Counted (remoteidStr user mac) ∧ (remoteidStr user mac).length ≤ 68 := by
  rw [remoteidStr]
  split_ifs with hma hh ha
  · refine counted_subopt_le _ ((length_fillContent_le ..).trans ?_)
    rw [Vector.toList_length]
    decide
  · refine counted_subopt_le _ ((length_fillContent_le ..).trans ?_)
    rw [length_flatMap_sprintf2x, Vector.toList_length]
    decide
  · exact counted_subopt_le _ ((length_fillContent_le ..).trans (by decide))
  · refine counted_subopt_le _ ((length_fillContent_le ..).trans ?_)
    rw [Vector.toList_length]

end

def localSubOptions (user : Opt82GlobalStatus) (ifindex : UInt32) (vlanid : UInt16) :
    List UInt8 :=
  circuitidStr user (env.status_item ifindex) ifindex vlanid ++
    remoteidStr user env.product_mac_address

section

variable (env : Opt82Env) (user : Opt82GlobalStatus) (ifindex : UInt32) (vlanid : UInt16)

theorem length_localSubOptions_lt : (localSubOptions env user ifindex vlanid).length < 256 := by
  obtain ⟨-, hc⟩ := counted_circuitidStr user (env.status_item ifindex) ifindex vlanid
  obtain ⟨-, hr⟩ := counted_remoteidStr user env.product_mac_address
  rw [localSubOptions, length_append]
  omega

theorem dhcpOption82_ne_padding : dhcpOption82 ≠ dhcpPadding := by decide

theorem dhcpOption82_ne_end : dhcpOption82 ≠ dhcpEnd := by decide

def localOption : DhcpOption :=
  .opt dhcpOption82 (localSubOptions env user ifindex vlanid) dhcpOption82_ne_padding
    dhcpOption82_ne_end (length_localSubOptions_lt env user ifindex vlanid)

theorem catOpt82Sting_eq :
    npdDhcpSnpCatOpt82Sting (circuitidStr user (env.status_item ifindex) ifindex vlanid)
      (remoteidStr user env.product_mac_address) =
        dhcpOption82 :: ofNat (localSubOptions env user ifindex vlanid).length ::
          localSubOptions env user ifindex vlanid := by
  obtain ⟨hc, -⟩ := counted_circuitidStr user (env.status_item ifindex) ifindex vlanid
  obtain ⟨hr, -⟩ := counted_remoteidStr user env.product_mac_address
  rw [npdDhcpSnpCatOpt82Sting, localSubOptions, hc.getD_one, hr.getD_one, take_length, take_length,
    length_append]

end

end Chanos.Dhcp

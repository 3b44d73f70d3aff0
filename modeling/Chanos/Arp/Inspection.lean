import Chanos.Arp.Snooping
import Chanos.Bitmap.FindBit
import Chanos.Dhcp.Trust
import Chanos.Netif.Index

/-!
# Dynamic ARP inspection

`npd_arp_inspection_check` decides whether an ARP packet is let in. On a VLAN that is inspected and
a port that is not trusted it asks the table of DHCP bindings for the MAC address of the sender, and
then makes the validations that are configured.
-/

namespace Chanos.Arp

open Lib Database Dhcp Netif Bitmap Bindings Option
variable {vid : UInt16}

/-- The fields of `arp_inspection_status` that the check reads, and `arp_inspection_enable`, which
its caller does. -/
structure ArpInspectionStatus where
  arp_inspection_enable : UInt32
  arp_inspection_type : UInt8
  allow_arp_vlans : List Ulong
  trust : List Ulong
  allowzero : UInt32

inductive AivType
  | srcMac
  | dstMac
  | ip
  | ipZero
  deriving DecidableEq

def aivTypes : List AivType := [.srcMac, .dstMac, .ip, .ipZero]

def validateSmacCheck : UInt8 := 1

def validateDmacCheck : UInt8 := 2

def validateIpCheck : UInt8 := 4

structure InspectionEnv where
  config : NetifConfig
  product : ArpProduct
  status : Option ArpInspectionStatus
  global_cfg : Option GlobalStatus
  npd_find_vlan_by_vid : UInt16 → Bool
  snp : SnpEnv

def npdArpInspectionValidateTypeCheck (user : ArpInspectionStatus) : AivType → Bool
  | .srcMac => user.arp_inspection_type &&& validateSmacCheck ≠ 0
  | .dstMac => user.arp_inspection_type &&& validateDmacCheck ≠ 0
  | .ip => user.arp_inspection_type &&& validateIpCheck ≠ 0 ∧ user.allowzero = 0
  | .ipZero => user.arp_inspection_type &&& validateIpCheck ≠ 0 ∧ user.allowzero ≠ 0

def reservedIp (p : ArpProduct) (ip_check : UInt32) : Bool :=
  isUlongMax p ip_check || ip_check >>> 24 = 0x7F || ip_check >>> 16 = 0xBFFF ||
    ip_check >>> 8 = 0x00C00000 || ip_check >>> 8 ≥ 0x00DFFFFF

def npdArpInspectionReservedIpCheck (p : ArpProduct) (pkt : ArpPacket) (user : ArpInspectionStatus) :
    Bool :=
  let sip := Word.htonl p.endian pkt.sip
  let dip := Word.htonl p.endian pkt.dip
  if (pkt.sip = 0 && user.allowzero = 0) || reservedIp p sip then false
  else if pkt.opCode ≠ arpRequest then !(dip = 0 || reservedIp p dip)
  else true

def npdQueryArpInspection (p : ArpProduct) (pkt : ArpPacket) (user : ArpInspectionStatus) :
    AivType → Bool
  | .srcMac => pkt.ethSmac = pkt.smac
  | .dstMac => if pkt.opCode = arpReply then pkt.ethDmac = pkt.dmac else true
  | .ip | .ipZero => npdArpInspectionReservedIpCheck p pkt user

/-- The loop of `npd_arp_inspection_check`: the packet gets past each validation that is configured.
-/
def validates (p : ArpProduct) (pkt : ArpPacket) (user : ArpInspectionStatus) : Bool :=
  aivTypes.all fun ni =>
    !npdArpInspectionValidateTypeCheck user ni || npdQueryArpInspection p pkt user ni

section

variable {e : Endian} (env : InspectionEnv) (t : BindingTable e)

def InspectionEnv.globalEnabled : Bool := env.global_cfg.any (·.dhcp_snp_enable)

def npdDhcpSnpCheckVlanStatus (vlanId : UInt16) : ReturnCode :=
  if !env.npd_find_vlan_by_vid vlanId then .vlanNotexist
  else
    match env.global_cfg with
    | none => .error
    | some global_cfg => if global_cfg.vlan_admin_status vlanId then .enVlan else .notEnVlan

def npdDhcpSnpQueryArpInspection (netif_index : UInt32) (pkt : ArpPacket) : Option Bool :=
  (npdDhcpSnpTblItemFind env.snp t { UserItem.zero with chaddr := pkt.smac }).map fun item =>
    pkt.sip = item.ip_addr && netif_index = item.ifindex

def checkBinding (netif_index : UInt32) (vid : UInt16) (pkt : ArpPacket) : Bool :=
  if env.globalEnabled then
    if npdDhcpSnpCheckVlanStatus env vid = .enVlan then
      (npdDhcpSnpQueryArpInspection env t netif_index pkt).getD false
    else false
  else false

def npdArpInspectionCheck (netif_index : UInt32) (vid : UInt16) (pkt : ArpPacket) : ArpReturnCode :=
  match env.status with
  | none => .error
  | some user =>
    let nlport := netifArrayIndexFromIfindex env.config netif_index
    if nlport > env.config.max_switchport_per_system ∨ nlport < 0 then .error
    else
      let vlan_flag := bitOf user.allow_arp_vlans vid.toNat
      let trust_mode := bitOf user.trust nlport.toNat
      if vlan_flag && !trust_mode && !checkBinding env t netif_index vid pkt then .error
      else if !validates env.product pkt user then .error
      else .success

end

/-! ## Who is let in -/

/-- Inspection and DHCP snooping are on, both globally and on the VLAN, and the port is not
trusted. -/
structure Inspects (env : InspectionEnv) (user : ArpInspectionStatus) (netif_index : UInt32)
    (vid : UInt16) : Prop where
  status : env.status = some user
  enable : user.arp_inspection_enable ≠ 0
  vlan : bitOf user.allow_arp_vlans vid.toNat = true
  global : env.globalEnabled = true
  snooped : npdDhcpSnpCheckVlanStatus env vid = .enVlan
  untrusted : bitOf user.trust (netifArrayIndexFromIfindex env.config netif_index).toNat = false

def Numbered (env : InspectionEnv) (netif_index : UInt32) : Prop :=
  0 ≤ netifArrayIndexFromIfindex env.config netif_index ∧
    netifArrayIndexFromIfindex env.config netif_index ≤ env.config.max_switchport_per_system

def Matches {e : Endian} (m : Bindings e) (netif_index : UInt32) (pkt : ArpPacket)
    (b : UserItem) : Prop :=
  m.binding pkt.smac = some b ∧ b.ip_addr = pkt.sip ∧ b.ifindex = netif_index

def BoundSender {e : Endian} (m : Bindings e) (netif_index : UInt32) (vid : UInt16)
    (pkt : ArpPacket) : Prop :=
  ∃ chaddr b, m.binding chaddr = some b ∧ b.state = bindStateBound ∧ b.chaddr = pkt.smac ∧
    b.ip_addr = pkt.sip ∧ b.ifindex = netif_index ∧ b.vlanId = vid

section

variable {e : Endian} {env : InspectionEnv} {t : BindingTable e} {m : Bindings e}
  {user : ArpInspectionStatus} {netif_index : UInt32} {vid : UInt16} {pkt : ArpPacket}

theorem checkBinding_iff (h : Holds t m) (hi : Inspects env user netif_index vid) :
    checkBinding env t netif_index vid pkt = true ↔ ∃ b, Matches m netif_index pkt b := by
  rw [checkBinding, if_pos hi.global, if_pos hi.snooped, npdDhcpSnpQueryArpInspection,
    h.find_eq env.snp]
  unfold Matches
  cases m.binding pkt.smac with
  | none => simp
  | some b =>
    rw [map_some, getD_some, Bool.and_eq_true, decide_eq_true_eq, decide_eq_true_eq]
    constructor
    · rintro ⟨hip, hp⟩
      exact ⟨b, rfl, hip.symm, hp.symm⟩
    · rintro ⟨b', hb', hip, hp⟩
      cases hb'
      exact ⟨hip.symm, hp.symm⟩

theorem check_success_iff (h : Holds t m) (hi : Inspects env user netif_index vid) :
    npdArpInspectionCheck env t netif_index vid pkt = .success ↔
      Numbered env netif_index ∧ (∃ b, Matches m netif_index pkt b) ∧
        validates env.product pkt user = true := by
  have hb : checkBinding env t netif_index vid pkt = true ↔
      ∃ b, Matches m netif_index pkt b := checkBinding_iff h hi
  unfold npdArpInspectionCheck Numbered
  rw [hi.status]
  dsimp only
  rw [hi.vlan, hi.untrusted]
  split
  next hp =>
    refine iff_of_false (by decide) fun hsu => ?_
    omega
  next hp =>
    have hn : 0 ≤ netifArrayIndexFromIfindex env.config netif_index ∧
        netifArrayIndexFromIfindex env.config netif_index ≤
          env.config.max_switchport_per_system := by omega
    cases hc : checkBinding env t netif_index vid pkt with
    | false =>
      rw [hc] at hb
      rw [if_pos (by decide)]
      exact iff_of_false (by decide) fun hsu => absurd (hb.mpr hsu.2.1) (by decide)
    | true =>
      have hma := hb.mp hc
      rw [if_neg (by decide)]
      cases hv : validates env.product pkt user with
      | false => exact iff_of_false (by decide) fun hsu => absurd hsu.2.2 (by decide)
      | true => exact iff_of_true rfl ⟨hn, hma, rfl⟩

theorem boundSender_iff (h : Holds t m) :
    BoundSender m netif_index vid pkt ↔
      ∃ b, Matches m netif_index pkt b ∧ b.state = bindStateBound ∧ b.vlanId = vid := by
  constructor
  · rintro ⟨chaddr, b, hb, hst, hma, hip, hp, hv⟩
    have hke : pkt.smac = chaddr := hma.symm.trans (h.chaddr_eq hb)
    exact ⟨b, ⟨hke ▸ hb, hip, hp⟩, hst, hv⟩
  · rintro ⟨b, ⟨hb, hip, hp⟩, hst, hv⟩
    exact ⟨pkt.smac, b, hb, hst, h.chaddr_eq hb, hip, hp, hv⟩

/-- With inspection and snooping on and an untrusted port, only bound senders are let in exactly
when the binding that matches the packet, if there is one, is bound and of the VLAN of the packet,
or the packet is refused anyway. -/
theorem admits_only_bound_iff (h : Holds t m) (hins : Inspects env user netif_index vid)
    (pkt : ArpPacket) :
    (npdArpInspectionCheck env t netif_index vid pkt = .success →
      BoundSender m netif_index vid pkt) ↔
      ((∀ b, Matches m netif_index pkt b → b.state = bindStateBound ∧ b.vlanId = vid) ∨
        validates env.product pkt user = false ∨ ¬Numbered env netif_index) := by
  rw [check_success_iff h hins, boundSender_iff h]
  constructor
  · intro himp
    by_cases hvalid : validates env.product pkt user = true
    · by_cases hnum : Numbered env netif_index
      · refine .inl fun b hb => ?_
        obtain ⟨b', hb', hbound⟩ := himp ⟨hnum, ⟨b, hb⟩, hvalid⟩
        -- There is one binding for the MAC address.
        obtain rfl := some.inj (hb.1.symm.trans hb'.1)
        exact hbound
      · exact .inr (.inr hnum)
    · exact .inr (.inl (Bool.eq_false_iff.mpr hvalid))
  · rintro (hall | hvalid | hnum) ⟨hnum', ⟨b, hb⟩, hvalid'⟩
    · exact ⟨b, hb, hall b hb⟩
    · nomatch hvalid.symm.trans hvalid'
    · exact absurd hnum' hnum

end

/-! ## Senders without a lease, and on other VLANs -/

def strictEnv : InspectionEnv where
  config := Build.chassisSupport.config
  product := ⟨4, false, .little, false⟩
  status := some ⟨1, 0, List.replicate 128 (BitVec.allOnes 32), List.replicate 64 0, 0⟩
  global_cfg := some ⟨true, fun _ => true⟩
  npd_find_vlan_by_vid _ := true
  snp := sampleEnv

def firstPort : UInt32 := 0x20000000

def askingBinding : UserItem := portBinding firstPort

def leasedBinding : UserItem :=
  { askingBinding with state := bindStateBound, ip_addr := 0x0100000A }

def clientArp (sip : UInt32) : ArpPacket where
  ethSmac := sampleBinding.chaddr
  ethDmac := .six 0xFF 0xFF 0xFF 0xFF 0xFF 0xFF
  opCode := arpRequest
  smac := sampleBinding.chaddr
  sip := sip
  dmac := Bytes.zero 6
  dip := 0x0900000A

theorem inspects_firstPort (h : vid = 1 ∨ vid = 2) :
    ∃ user, Inspects strictEnv user firstPort vid := by
  refine ⟨_, ⟨rfl, by decide, ?_, rfl, rfl, by decide⟩⟩
  rcases h with rfl | rfl <;> rfl

theorem numbered_firstPort : Numbered strictEnv firstPort := by
  have hp : netifArrayIndexFromIfindex Build.chassisSupport.config firstPort = 0 := by decide
  unfold Numbered
  rw [show strictEnv.config = Build.chassisSupport.config from rfl, hp]
  decide

section

variable {t : BindingTable .little} {b : UserItem} (h : Holds t (write .empty b))
  (hma : b.chaddr = sampleBinding.chaddr)
include h hma

theorem check_clientArp
    (hp : b.ifindex = firstPort) (hv : vid = 1 ∨ vid = 2) :
    npdArpInspectionCheck strictEnv t firstPort vid (clientArp b.ip_addr) = .success := by
  obtain ⟨user, hi⟩ := inspects_firstPort hv
  refine (check_success_iff h hi).mpr ⟨numbered_firstPort, ⟨b, ?_, rfl, hp⟩, ?_⟩
  · exact (binding_write (hasRoom_empty _ _) _).trans (if_pos hma.symm)
  · obtain rfl := some.inj hi.status
    rfl

theorem not_boundSender_clientArp
    (hb : b.state ≠ bindStateBound ∨ b.vlanId ≠ vid) (sip : UInt32) :
    ¬BoundSender (write .empty b : Bindings .little) firstPort vid (clientArp sip) := by
  rw [boundSender_iff h]
  rintro ⟨b', ⟨hf, -, -⟩, hst, hv⟩
  have hfd : (write .empty b : Bindings .little).binding (clientArp sip).smac = some b :=
    (binding_write (hasRoom_empty _ _) _).trans (if_pos hma.symm)
  obtain rfl := mem_unique hfd hf
  rcases hb with hb | hb
  · exact hb hst
  · exact hb hv

end

/-- The packet of a client with a lease on its port and VLAN is let in, and its sender is bound. -/
theorem admits_only_bound_leased :
    ∃ t : BindingTable .little, Holds t (write .empty leasedBinding) ∧
      npdArpInspectionCheck strictEnv t firstPort 1 (clientArp leasedBinding.ip_addr) = .success ∧
      BoundSender (write .empty leasedBinding : Bindings .little) firstPort 1
        (clientArp leasedBinding.ip_addr) := by
  obtain ⟨t, -, hholds, -⟩ := (holds_create .little).insert_spec sampleEnv.db leasedBinding
  obtain ⟨user, hins⟩ := inspects_firstPort (.inl rfl)
  have hcheck := check_clientArp hholds rfl rfl (.inl rfl)
  refine ⟨t, hholds, hcheck, (admits_only_bound_iff hholds hins _).mpr (.inl fun b hb => ?_) hcheck⟩
  have hfound := (binding_write (m := (.empty : Bindings .little)) (hasRoom_empty _ _)
    leasedBinding.chaddr).trans (if_pos rfl)
  obtain rfl := mem_unique hfound hb.1
  exact ⟨rfl, rfl⟩

/-- Two packets from an untrusted port that are let in although no bound binding matches them: one
with the sender address 0.0.0.0 of a client that has only asked for a server, and one on VLAN 2 of
a client with a lease on VLAN 1. -/
theorem unbound_admitted :
    (∃ t : BindingTable .little,
      npdDhcpPacketRecordUserInfo sampleEnv .zero (createDbtable (npdDhcpSnpDbtable .little)) 1
          firstPort typedDiscover 1 portModeNotrust = .ok (t, .ok) ∧
      Holds t (write .empty askingBinding) ∧
      (∃ user, Inspects strictEnv user firstPort 1) ∧
      npdArpInspectionCheck strictEnv t firstPort 1 (clientArp 0) = .success ∧
      ¬BoundSender (write .empty askingBinding : Bindings .little) firstPort 1
        (clientArp 0)) ∧
    ∃ t : BindingTable .little,
      Holds t (write .empty leasedBinding) ∧
      (∃ user, Inspects strictEnv user firstPort 2) ∧
      npdArpInspectionCheck strictEnv t firstPort 2 (clientArp leasedBinding.ip_addr) = .success ∧
      ¬BoundSender (write .empty leasedBinding : Bindings .little) firstPort 2
        (clientArp leasedBinding.ip_addr) := by
  have hcall : messageCall .little (find (.empty : Bindings .little)) 1 firstPort
      typedDiscover .zero 1 portModeNotrust =
        .ok (.insert (portUser firstPort)) := rfl
  obtain ⟨t, hrun, hholds, -⟩ := exists_portTable firstPort hcall
  obtain ⟨t', -, hholds', -⟩ := (holds_create .little).insert_spec sampleEnv.db leasedBinding
  refine ⟨⟨t, hrun, hholds, inspects_firstPort (.inl rfl), ?_, ?_⟩, t', hholds',
    inspects_firstPort (.inr rfl), ?_, ?_⟩
  · exact check_clientArp (b := askingBinding) hholds rfl rfl (.inl rfl)
  · exact not_boundSender_clientArp hholds rfl (.inl (by decide)) 0
  · exact check_clientArp hholds' rfl rfl (.inr rfl)
  · exact not_boundSender_clientArp hholds' rfl (.inr (by decide)) _

end Chanos.Arp

import Chanos.Dhcp.Calls
import Chanos.Lib.Trace

/-!
# Trusted interfaces

`npd_dhcp_snp_packet_rx_process` drops the messages of a server, by their `op`, on an interface that
is not trusted. What is done with the others is decided by their type, and the handler of refusals
does not look at `op` (`ForgedNak`). Only trusted interfaces act as a server exactly when no packet
is such a refusal (`onlyTrusted_along_iff`).
-/

namespace Chanos.Dhcp

open Lib Database Bindings Option Except

structure GlobalStatus where
  dhcp_snp_enable : Bool
  vlan_admin_status : UInt16 → Bool

structure RxEnv extends SnpEnv where
  product_basemac : Bytes 6
  global_cfg : Option GlobalStatus
  relay_enable : Bool
  status_item : UInt32 → Option UInt32
  forward : ReturnCode

def RxEnv.trustMode (env : RxEnv) (netif_index : UInt32) : UInt32 :=
  (env.status_item netif_index).getD portModeNotrust

def RxEnv.snoops (env : RxEnv) (vid : UInt16) : Bool :=
  env.global_cfg.any fun snp_entry => snp_entry.dhcp_snp_enable && snp_entry.vlan_admin_status vid

def npdDhcpSnpPacketRxProcess {e : Endian} (env : RxEnv) (garbage : UserItem) (t : BindingTable e)
    (data : DhcpMessage) (netif_index : UInt32) (vid : UInt16) :
    Except Fault (BindingTable e × ReturnCode) :=
  if data.chaddr = env.product_basemac then .ok (t, .ok)
  else
    match npdDhcpSnpGetOption data dhcpMessageType with
    | none => .ok (t, .pktDrop)
    | some p_message_type =>
      if env.global_cfg.isNone then .ok (t, .pktDrop)
      else if ¬env.snoops vid then .ok (t, if env.relay_enable then env.forward else .ok)
      else if data.op = bootreply ∧ env.trustMode netif_index = portModeNotrust then
        .ok (t, .pktDrop)
      else do
        let (t, ret) ← npdDhcpPacketRecordUserInfo env.toSnpEnv garbage t vid netif_index data
          (data.byte p_message_type) (env.trustMode netif_index)
        return (t, if ret = .ok then env.forward else .pktDrop)

structure RxPacket where
  env : RxEnv
  garbage : UserItem
  data : DhcpMessage
  netif_index : UInt32
  vid : UInt16

namespace RxPacket

variable (p : RxPacket)

def messageType : Option MessageType :=
  (npdDhcpSnpGetOption p.data dhcpMessageType).map fun off => .ofByte (p.data.byte off)

theorem messageType_eq {off : ℕ} (ho : npdDhcpSnpGetOption p.data dhcpMessageType = some off) :
    p.messageType = some (.ofByte (p.data.byte off)) := by
  rw [messageType, ho]
  rfl

/-- The call that the packet leads to, with its type at `off`. -/
abbrev Calls {e : Endian} (m : Bindings e) (off : ℕ) (call : TblCall) : Prop :=
  messageCall e m.find p.vid p.netif_index p.data p.garbage (p.data.byte off)
    (p.env.trustMode p.netif_index) = .ok call

def Trusted : Prop := p.env.trustMode p.netif_index ≠ portModeNotrust

end RxPacket

/-- What the packet makes of the table. -/
def RxStep {e : Endian} (s : SnpTable e) (p : RxPacket) (s' : SnpTable e) : Prop :=
  ∃ ret, npdDhcpSnpPacketRxProcess p.env p.garbage s.table p.data p.netif_index p.vid =
    .ok (s'.table, ret)

def Gains (before : Option UserItem) (after : UserItem) : Prop :=
  (after.state = bindStateBound ∧ ∀ b, before = some b → b.state ≠ bindStateBound) ∨
    (after.ip_addr ≠ 0 ∧ ∀ b, before = some b → b.ip_addr ≠ after.ip_addr) ∨
    (after.server_id ≠ 0 ∧ ∀ b, before = some b → b.server_id ≠ after.server_id)

def ActsAsServer {e : Endian} (s : SnpTable e) (p : RxPacket) (s' : SnpTable e) : Prop :=
  ∃ chaddr,
    (∃ b, s'.bindings.binding chaddr = some b ∧ Gains (s.bindings.binding chaddr) b) ∨
      (p.messageType = some .nak ∧ (∃ b, s.bindings.binding chaddr = some b) ∧
        s'.bindings.binding chaddr = none)

/-- Only packets of trusted interfaces act as those of a server. -/
def OnlyTrusted {e : Endian} (s : SnpTable e) (p : RxPacket) (s' : SnpTable e) : Prop :=
  ActsAsServer s p s' → p.Trusted

/-- The packet of an untrusted interface is recorded, and is a refusal with the `op` of a client for
a binding that is dynamic, with the server identifier of that binding. -/
structure ForgedNak {e : Endian} (s : SnpTable e) (p : RxPacket) : Prop where
  untrusted : ¬p.Trusted
  snoops : p.env.snoops p.vid = true
  chaddr : p.data.chaddr ≠ p.env.product_basemac
  op : p.data.op ≠ bootreply
  messageType : p.messageType = some .nak
  refuses : ∃ b, s.bindings.binding p.data.chaddr = some b ∧ Refuses e p.data b
  serverId : HasWord p.data dhcpServerId

/-! ## What a packet can do -/

def RxPacket.Recorded (p : RxPacket) : Prop :=
  p.data.chaddr ≠ p.env.product_basemac ∧ p.env.snoops p.vid = true ∧
    (p.data.op = bootreply → p.Trusted)

section

variable {e : Endian} {s s' : SnpTable e} {p : RxPacket} {call : TblCall} {off : ℕ}

theorem packetRxProcess_recorded (t : BindingTable e) (h : p.Recorded)
    (ho : npdDhcpSnpGetOption p.data dhcpMessageType = some off) :
    npdDhcpSnpPacketRxProcess p.env p.garbage t p.data p.netif_index p.vid = do
      let (t, ret) ← npdDhcpPacketRecordUserInfo p.env.toSnpEnv p.garbage t p.vid p.netif_index
        p.data (p.data.byte off) (p.env.trustMode p.netif_index)
      return (t, if ret = .ok then p.env.forward else .pktDrop) := by
  obtain ⟨hma, hsn, ht⟩ := h
  have hc : ¬p.env.global_cfg.isNone = true := by
    intro hno
    rw [RxEnv.snoops, isNone_iff_eq_none.mp hno] at hsn
    simp at hsn
  have hr : ¬(p.data.op = bootreply ∧ p.env.trustMode p.netif_index = portModeNotrust) :=
    fun hr => ht hr.1 hr.2
  unfold npdDhcpSnpPacketRxProcess
  rw [if_neg hma, ho]
  dsimp only
  rw [if_neg hc, if_neg (not_not.mpr hsn), if_neg hr]

theorem packetRxProcess_ignored (t : BindingTable e)
    (h : p.Recorded → npdDhcpSnpGetOption p.data dhcpMessageType = none) :
    ∃ ret, npdDhcpSnpPacketRxProcess p.env p.garbage t p.data p.netif_index p.vid =
      .ok (t, ret) := by
  unfold npdDhcpSnpPacketRxProcess
  by_cases hma : p.data.chaddr = p.env.product_basemac
  · exact ⟨_, if_pos hma⟩
  rw [if_neg hma]
  cases ho : npdDhcpSnpGetOption p.data dhcpMessageType with
  | none => exact ⟨_, rfl⟩
  | some off =>
    split_ifs with hc hsn hr
    · exact ⟨_, rfl⟩
    · exact ⟨_, rfl⟩
    · -- Nothing else keeps a packet from being recorded.
      have hno := h ⟨hma, hsn, fun hop ht => hr ⟨hop, ht⟩⟩
      rw [ho] at hno
      simp at hno
    · exact ⟨_, rfl⟩
    · exact ⟨_, rfl⟩

theorem exists_rxStep_of_handled (hr : p.Recorded)
    (ho : npdDhcpSnpGetOption p.data dhcpMessageType = some off)
    (hh : Handled s.bindings p.vid p.netif_index p.data (p.data.byte off)
      (p.env.trustMode p.netif_index)) : ∃ s' : SnpTable e, RxStep s p s' := by
  obtain ⟨call, hca⟩ := (messageCall_defined_iff s.bindings p.garbage).mpr hh
  obtain ⟨t, hrun, hh, -⟩ := packetRecordUserInfo_of_call s.holds p.env.toSnpEnv hca
  have hrx := packetRxProcess_recorded s.table hr ho
  rw [hrun] at hrx
  exact ⟨⟨t, _, hh⟩, _, hrx⟩

theorem RxStep.cases (h : RxStep s p s') :
    ((p.Recorded → p.messageType = none) ∧ TblCall.keep.Made p.env.toSnpEnv s s') ∨
      (p.Recorded ∧ ∃ off call, npdDhcpSnpGetOption p.data dhcpMessageType = some off ∧
        p.Calls s.bindings off call ∧ call.Made p.env.toSnpEnv s s') := by
  obtain ⟨ret, h⟩ := h
  by_cases hre : p.Recorded → npdDhcpSnpGetOption p.data dhcpMessageType = none
  · obtain ⟨ret', hrt⟩ := packetRxProcess_ignored s.table hre
    rw [hrt] at h
    refine .inl ⟨fun h => ?_, TblCall.made_keep _ (Prod.mk.inj (ok.inj h)).1.symm⟩
    rw [RxPacket.messageType, hre h, map_none]
  · obtain ⟨hre, hso⟩ := Classical.not_imp.mp hre
    obtain ⟨off, ho⟩ := ne_none_iff_exists'.mp hso
    rw [packetRxProcess_recorded s.table hre ho, packetRecordUserInfo_eq s.holds] at h
    obtain ⟨r, hr, h⟩ := bind_eq_ok.mp h
    obtain ⟨call, hca, hr⟩ := bind_eq_ok.mp hr
    obtain ⟨⟨t', code⟩, hrun, hr⟩ := bind_eq_ok.mp hr
    cases hr
    obtain rfl : t' = s'.table := (Prod.mk.inj (ok.inj h)).1
    exact .inr ⟨hre, off, call, ho, hca, TblCall.made_of_run hrun⟩

def Plain (user : UserItem) : Prop :=
  user.state = bindStateRequest ∧ user.ip_addr = 0 ∧ user.server_id = 0

theorem plain_clientItem {vlanid : UInt16} {ifindex lease_time relay_ip : UInt32}
    {dhcp : DhcpMessage} (hop : dhcp.op ≠ bootreply) :
    Plain (clientItem e vlanid ifindex dhcp lease_time relay_ip) :=
  ⟨rfl, if_neg hop, rfl⟩

theorem not_gains_of_plain {before : Option UserItem} {user : UserItem} (h : Plain user) :
    ¬Gains before user := by
  obtain ⟨hst, haddr, hid⟩ := h
  rintro (⟨hb, -⟩ | ⟨hne, -⟩ | ⟨hne, -⟩)
  · rw [hst] at hb
    cases hb
  · exact hne haddr
  · exact hne hid

theorem not_gains_self {b : UserItem} : ¬Gains (some b) b := by
  rintro (⟨hb, hne⟩ | ⟨-, hne⟩ | ⟨-, hne⟩)
  · exact hne b rfl hb
  all_goals exact hne b rfl rfl

def TblCall.IsPlain : TblCall → Prop
  | insert user | refreshBind _ user => Plain user
  | keep | delete _ => True

theorem isPlain_of_messageCall {m : Bindings e} {vid : UInt16} {netif_index trustMode : UInt32}
    {data : DhcpMessage} {garbage : UserItem} {message_type : UInt8} (hop : data.op ≠ bootreply)
    (h : messageCall e m.find vid netif_index data garbage message_type trustMode = .ok call) :
    call.IsPlain := by
  rcases messageCall_forms h with
    rfl | ⟨-, _, _, rfl⟩ | ⟨b, -, -, rfl | ⟨_, _, rfl⟩ | ⟨hg, -⟩⟩
  · trivial
  · exact plain_clientItem hop
  · trivial
  · exact plain_clientItem hop
  · exact absurd hg.1 hop

theorem TblCall.IsPlain.not_gains (h : call.IsPlain) {env : SnpEnv} {m : Bindings e}
    {chaddr : Bytes 6} {b : UserItem}
    (hb : ((call.change env m).apply m).binding chaddr = some b) : ¬Gains (m.binding chaddr) b := by
  rcases call.change_cases env m with hc | ⟨user, -, hc⟩ | ⟨user', hc, hr, hwr⟩
  · rw [hc] at hb
    rw [show m.binding chaddr = some b from hb]
    exact not_gains_self
  · rw [hc, Change.apply, binding_erase] at hb
    split_ifs at hb
    rw [hb]
    exact not_gains_self
  · rw [hc, Change.apply, binding_write hr] at hb
    split_ifs at hb
    · cases hb
      obtain ⟨user, rfl | ⟨_, rfl⟩, _, _, _, _, rfl⟩ := hwr
      all_goals exact not_gains_of_plain h
    · rw [hb]
      exact not_gains_self

theorem RxStep.onlyTrusted_iff (h : RxStep s p s') : OnlyTrusted s p s' ↔ ¬ForgedNak s p := by
  -- The type of a refusal is read from the option that the handling of the packet reads.
  have hna : ∀ {off call}, npdDhcpSnpGetOption p.data dhcpMessageType = some off →
      p.messageType = some .nak → p.Calls s.bindings off call →
      npdDhcpSnpNackProcess e s.bindings.find p.vid p.netif_index p.data p.garbage = .ok call := by
    intro off call ho ht h
    rwa [RxPacket.Calls, messageCall, some.inj ((p.messageType_eq ho).symm.trans ht)] at h
  constructor
  · -- A forged refusal deletes the binding of its client.
    intro hon hf
    refine hf.untrusted (hon ⟨p.data.chaddr, .inr ⟨hf.messageType, ?_, ?_⟩⟩)
    · obtain ⟨b, hb, -⟩ := hf.refuses
      exact ⟨b, hb⟩
    rcases h.cases with ⟨hno, -⟩ | ⟨-, off, call, ho, hca, hmk⟩
    · have ht := hno ⟨hf.chaddr, hf.snoops, fun hop => absurd hop hf.op⟩
      rw [hf.messageType] at ht
      simp at ht
    rcases nackProcess_cases (hna ho hf.messageType hca) with
      ⟨b, hbe, -, -, rfl⟩ | ⟨hn, -⟩
    · have hc : s'.bindings = s.bindings.erase b.chaddr := hmk.bindings
      rw [hc, binding_erase, s.holds.chaddr_eq hbe, if_pos rfl]
    · exact absurd hf.refuses hn
  · -- Nothing else that comes from an untrusted interface is the act of a server.
    intro hn hac
    by_contra hu
    obtain ⟨chaddr, ⟨b, ha, hg⟩ | ⟨ht, ⟨b, hbe⟩, ha⟩⟩ := hac
    · rcases h.cases with ⟨-, hkp⟩ | ⟨hr, off, call, -, hca, hmk⟩
      · have hsm : s'.bindings = s.bindings := hkp.bindings
        rw [← hsm, ha] at hg
        exact not_gains_self hg
      · have hop : p.data.op ≠ bootreply := fun hop => hu (hr.2.2 hop)
        rw [hmk.bindings] at ha
        exact (isPlain_of_messageCall hop hca).not_gains ha hg
    · rcases h.cases with ⟨-, hkp⟩ | ⟨hr, off, call, ho, hca, hmk⟩
      · have hsm : s'.bindings = s.bindings := hkp.bindings
        rw [hsm, hbe] at ha
        simp at ha
      · have hop : p.data.op ≠ bootreply := fun hop => hu (hr.2.2 hop)
        rcases nackProcess_cases (hna ho ht hca) with ⟨b, hb, hre, hwd, -⟩ | ⟨-, rfl⟩
        · exact hn ⟨hu, hr.2.1, hr.1, hop, ht, ⟨b, hb, hre⟩, hwd⟩
        · rw [hmk.bindings] at ha
          nomatch hbe.symm.trans ha

end

/-- In any sequence of packets, only trusted interfaces act as a server exactly when no packet is a
forged refusal. -/
theorem onlyTrusted_along_iff {e : Endian} {s : SnpTable e} {l : List (RxPacket × SnpTable e)}
    (h : Along RxStep s l) : Along OnlyTrusted s l ↔ Along (fun s p _ => ¬ForgedNak s p) s l :=
  along_congr (fun _ _ _ => RxStep.onlyTrusted_iff) h

/-! ## A forged refusal -/

def emptyTable (e : Endian) : SnpTable e :=
  ⟨createDbtable (npdDhcpSnpDbtable e), .empty, holds_create e⟩

def untrustedEnv : RxEnv where
  toSnpEnv := sampleEnv
  product_basemac := Bytes.zero 6
  global_cfg := some ⟨true, fun _ => true⟩
  relay_enable := false
  status_item _ := none
  forward := .ok

def discoverPacket : RxPacket :=
  ⟨untrustedEnv, .zero, typedDiscover, 5, 1⟩

def nakPacket : RxPacket :=
  ⟨untrustedEnv, .zero, sampleMessage 1 [0x35, 1, 6, 0x36, 4, 0, 0, 0, 0, 0xFF] (by decide), 7, 1⟩

theorem recorded_of_untrustedEnv {p : RxPacket} (henv : p.env = untrustedEnv)
    (hop : p.data.op ≠ bootreply) (hma : p.data.chaddr ≠ Bytes.zero 6) : p.Recorded := by
  refine ⟨?_, ?_, fun h => absurd h hop⟩
  · rw [henv]
    exact hma
  · rw [henv]
    rfl

theorem exists_discoverStep :
    ∃ s : SnpTable .little, s.bindings = write .empty sampleBinding ∧
      RxStep (emptyTable .little) discoverPacket s := by
  have hca : messageCall .little (find (.empty : Bindings .little)) 1 5
      discoverPacket.data .zero 1 portModeNotrust =
        .ok (.insert { sampleBinding with sys_escape := 0 }) := rfl
  have ho : npdDhcpSnpGetOption discoverPacket.data dhcpMessageType = some 242 := rfl
  have hr := recorded_of_untrustedEnv (p := discoverPacket) rfl (by decide) (by decide)
  obtain ⟨t, hrun, hh, -⟩ := exists_portTable 5 hca
  refine ⟨⟨t, _, hh⟩, rfl, .ok, ?_⟩
  rw [packetRxProcess_recorded _ hr ho]
  change npdDhcpPacketRecordUserInfo sampleEnv .zero (createDbtable (npdDhcpSnpDbtable .little)) 1 5
    discoverPacket.data 1 portModeNotrust >>= _ = _
  rw [hrun]
  rfl

section

variable {s : SnpTable .little} (hs : s.bindings = write .empty sampleBinding)
include hs

theorem forgedNak_nakPacket : ForgedNak s nakPacket where
  untrusted := not_not.mpr rfl
  snoops := rfl
  chaddr := by decide
  op := by decide
  messageType := rfl
  refuses := by
    refine ⟨sampleBinding, ?_, rfl, by decide⟩
    rw [hs]
    exact find_sampleBinding (show sampleBinding.chaddr = sampleBinding.chaddr from rfl)
  serverId := ⟨245, rfl, by decide⟩

end

theorem exists_nakStep {s : SnpTable .little} : ∃ s' : SnpTable .little, RxStep s nakPacket s' := by
  have hr := recorded_of_untrustedEnv (p := nakPacket) rfl (by decide) (by decide)
  have hop : nakPacket.data.op ≠ bootreply := by decide
  have hh : Handled s.bindings 1 7 nakPacket.data 6 portModeNotrust :=
    .of_options (fun h => absurd h hop) ⟨245, rfl, by decide⟩ (by decide)
  exact exists_rxStep_of_handled hr
    (show npdDhcpSnpGetOption nakPacket.data dhcpMessageType = some 242 from rfl) hh

/-- A client on an untrusted interface can have the binding of another one deleted. -/
theorem onlyTrusted_broken :
    ∃ s s' : SnpTable .little,
      Along RxStep (emptyTable .little) [(discoverPacket, s), (nakPacket, s')] ∧
        ¬Along OnlyTrusted (emptyTable .little) [(discoverPacket, s), (nakPacket, s')] := by
  obtain ⟨s, hs, hdiscover⟩ := exists_discoverStep
  obtain ⟨s', hnak⟩ := exists_nakStep (s := s)
  refine ⟨s, s', ⟨hdiscover, hnak, trivial⟩, fun honly => ?_⟩
  exact hnak.onlyTrusted_iff.mp honly.2.1 (forgedNak_nakPacket hs)

def renewalEnv : RxEnv where
  toSnpEnv := { sampleEnv with now := 130 }
  product_basemac := Bytes.zero 6
  global_cfg := some ⟨true, fun _ => true⟩
  relay_enable := false
  status_item _ := some portModeTrust
  forward := .ok

def ackPacket : RxPacket :=
  ⟨renewalEnv, .zero, typedAck, 9, 1⟩

theorem recorded_ackPacket : ackPacket.Recorded :=
  ⟨by decide, rfl, fun _ => show portModeTrust ≠ portModeNotrust by decide⟩

theorem exists_ackStep {s : SnpTable .little} : ∃ s' : SnpTable .little, RxStep s ackPacket s' := by
  have hh : Handled s.bindings 1 9 ackPacket.data 5 portModeTrust :=
    .of_options (leaseReadable_of_hasWord ⟨251, rfl, by decide⟩) ⟨245, rfl, by decide⟩ (by decide)
  exact exists_rxStep_of_handled recorded_ackPacket
    (show npdDhcpSnpGetOption ackPacket.data dhcpMessageType = some 242 from rfl) hh

/-- A client asks for an address and a server on a trusted interface acknowledges it. -/
theorem onlyTrusted_along_discover :
    ∃ s s' : SnpTable .little,
      Along RxStep (emptyTable .little) [(discoverPacket, s), (ackPacket, s')] ∧
        Along OnlyTrusted (emptyTable .little) [(discoverPacket, s), (ackPacket, s')] := by
  obtain ⟨s, -, hdiscover⟩ := exists_discoverStep
  obtain ⟨s', hack⟩ := exists_ackStep (s := s)
  have htrace : Along RxStep (emptyTable .little) [(discoverPacket, s), (ackPacket, s')] :=
    ⟨hdiscover, hack, trivial⟩
  refine ⟨s, s', htrace, (onlyTrusted_along_iff htrace).mpr ⟨fun hforged => ?_, fun hforged => ?_,
    trivial⟩⟩
  · exact absurd hforged.messageType (by decide)
  · exact absurd hforged.messageType (by decide)

end Chanos.Dhcp

import Chanos.Erpp.Event

/-!
# Received packets

`erpp_packet_rx_callback` looks up the domain that a packet names, checks that the ring is enabled,
and calls the handler for the type of the packet (`erpp_packet.c`). It refuses ring ids above
`ERPP_RING_SIZE`, and passes zero on, which no ring has.
-/

namespace Chanos.Erpp

open ErppDomain

namespace ErppRing

variable (r : ErppRing)

def otherPort (rx : ℕ) : ℕ :=
  if r.node.port0.netif_index = rx then r.node.port1.netif_index else r.node.port0.netif_index

def closeSecondary : ErppRing :=
  if r.node.port0.erpp_port_status = .forwarding then r.withPorts .forwarding .block else r

theorem closeSecondary_ports : r.closeSecondary.ports ≠ (.forwarding, .forwarding) := by
  unfold closeSecondary
  split
  · exact fun h => absurd (congrArg Prod.snd h) (by simp [ports, withPorts])
  · next hp => exact fun h => hp (congrArg Prod.fst h)

def completeFlush : ErppRing :=
  if r.node.erpp_node_status = preForwarding then
    if r.node.port0.erpp_port_status = .block ∨ r.node.port1.erpp_port_status = .block then
      (r.withStatus linkUp).withPorts .forwarding .forwarding
    else r.withStatus linkUp
  else r

def linkDownReceived : ErppRing :=
  (r.withPorts .forwarding (if r.level = 1 then .forwarding else .block)).withStatus nodeFail

end ErppRing

/-! ## The handlers -/

namespace ErppRun

def forward (s : ErppRun) (r : ErppRing) (rx : ℕ) (pkt : ErppPacket) : ErppRun :=
  { s with sent := s.sent ++ [(r.otherPort rx, pkt)] }

def setRing (s : ErppRun) (i : ℤ) (r : ErppRing) : ErppRun := { s with entry := s.entry.setRing i r }

end ErppRun

open ErppRun

variable (host : Daemon) (rx : ℕ) (pkt : ErppPacket) (s : ErppRun)

def erppPacketHelloProcess : ErppRun :=
  let i : ℤ := pkt.ring_id - 1
  let s := s.touch pkt.ring_id i
  let r := s.entry.ringAt host.stray i
  if pkt.sys_mac ≠ host.sys_mac then s.forward r rx pkt
  else if r.node.erpp_node_status = nodeFail then
    let s := s.setRing i (r.closeSecondary.withStatus nodeComplete)
    let s := { s with entry := { s.entry with flush_flag := true, packet_ring := pkt.ring_id } }
    let s := s.erppTxTypePacket host pkt.ring_id completeFlushPacket r.node.port0.netif_index
    s.erppTxTypePacket host pkt.ring_id completeFlushPacket r.node.port1.netif_index
  else
    let s := s.setRing i r.closeSecondary
    { s with entry := { s.entry with timer_count1 := s.entry.fail_timer } }

def erppPacketCompleteFlushProcess : ErppRun :=
  let i : ℤ := pkt.ring_id - 1
  let s :=
    if pkt.sys_mac ≠ host.sys_mac then
      let s := s.touch pkt.ring_id i
      let r := s.entry.ringAt host.stray i
      (s.setRing i r.completeFlush).forward r rx pkt
    else s
  { s with entry := { s.entry with flush_flag := true } }

def erppPacketCommonFlushProcess : ErppRun :=
  { s with entry := { s.entry with flush_flag := true } }

def erppPacketLinkDownProcess : ErppRun :=
  let i : ℤ := pkt.ring_id - 1
  let s := s.touch pkt.ring_id i
  let r := s.entry.ringAt host.stray i
  if r.IsMaster then
    let s := s.setRing i r.linkDownReceived
    let s := { s with entry := { s.entry with flush_flag := true, packet_ring := pkt.ring_id } }
    let s := s.erppTxTypePacket host pkt.ring_id commonFlushPacket r.node.port0.netif_index
    s.erppTxTypePacket host pkt.ring_id commonFlushPacket r.node.port1.netif_index
  else s.forward r rx pkt

def erppPacketEdgeHelloProcess : ErppRun :=
  if pkt.sys_mac = host.sys_mac then
    { s with entry := { s.entry with timer_count0 := s.entry.hello_timer } }
  else
    let s := s.touch pkt.ring_id pkt.ring_id
    let r := s.entry.ringAt host.stray pkt.ring_id
    if r.node.erpp_node_role = .assistantEdge then
      let s := s.setRing pkt.ring_id (r.withStatus erppLinkNormal)
      { s with entry := { s.entry with timer_count2 := s.entry.fault_timer } }
    else
      let i : ℤ := pkt.ring_id - 1
      let s := s.touch pkt.ring_id i
      s.forward (s.entry.ringAt host.stray i) rx pkt

def erppPacketFaultProcess : ErppRun :=
  let i : ℤ := pkt.ring_id - 1
  let s := s.touch pkt.ring_id i
  let r := s.entry.ringAt host.stray i
  if r.node.erpp_node_role = .edge then
    s.setRing i (r.withPorts r.node.port0.erpp_port_status .block)
  else if pkt.sys_mac = host.sys_mac then s
  else s.forward r rx pkt

def erppPacketRxHander : ErppRun :=
  if pkt.erpp_type = helloPacket then erppPacketHelloProcess host rx pkt s
  else if pkt.erpp_type = completeFlushPacket then erppPacketCompleteFlushProcess host rx pkt s
  else if pkt.erpp_type = commonFlushPacket then erppPacketCommonFlushProcess s
  else if pkt.erpp_type = linkDownPacket then erppPacketLinkDownProcess host rx pkt s
  else if pkt.erpp_type = edgeHelloPacket then erppPacketEdgeHelloProcess host rx pkt s
  else if pkt.erpp_type = faultPacket then erppPacketFaultProcess host rx pkt s
  else s

def rxDomain (d : ErppDomain) : ErppRun :=
  let i : ℤ := pkt.ring_id - 1
  let s := (start d).touch pkt.ring_id i
  if (d.ringAt host.stray i).is_enable = true then erppPacketRxHander host rx pkt s else s

def erppPacketRxCallback (tbl : List ErppDomain) : Option ErppRun :=
  if erppRingSize < pkt.ring_id then none
  else (tbl.find? fun d => d.domain_id = pkt.domain_id).map (rxDomain host rx pkt)

/-! ## What a packet does to a ring -/

namespace ErppRun

variable {host : Daemon} {s : ErppRun}

@[simp]
theorem touch_entry (id : ℕ) (i : ℤ) : (s.touch id i).entry = s.entry := rfl

@[simp]
theorem txTypePacket_entry (id packetType netifIndex : ℕ) :
    (s.erppTxTypePacket host id packetType netifIndex).entry = s.entry := rfl

@[simp]
theorem forward_entry (r : ErppRing) : (s.forward r rx pkt).entry = s.entry := rfl

@[simp]
theorem setRing_entry (i : ℤ) (r : ErppRing) : (s.setRing i r).entry = s.entry.setRing i r := rfl

end ErppRun

def ErppRing.received (r : ErppRing) : ErppRing :=
  if pkt.erpp_type = helloPacket then
    if pkt.sys_mac ≠ host.sys_mac then r
    else if r.node.erpp_node_status = nodeFail then r.closeSecondary.withStatus nodeComplete
    else r.closeSecondary
  else if pkt.erpp_type = completeFlushPacket then
    if pkt.sys_mac ≠ host.sys_mac then r.completeFlush else r
  else if pkt.erpp_type = linkDownPacket then
    if r.IsMaster then r.linkDownReceived else r
  else if pkt.erpp_type = faultPacket then
    if r.node.erpp_node_role = .edge then r.withPorts r.node.port0.erpp_port_status .block else r
  else r

/-- What a packet makes of the ring with the index `k`. -/
def ErppRing.heard (k : Fin 4) (r : ErppRing) : ErppRing :=
  if pkt.ring_id = k + 1 then r.received host pkt
  else if pkt.erpp_type = edgeHelloPacket ∧ pkt.ring_id = k ∧ pkt.sys_mac ≠ host.sys_mac ∧
      r.node.erpp_node_role = .assistantEdge then
    r.withStatus erppLinkNormal
  else r

section

variable {k : Fin 4} {s : ErppRun}

theorem id_sub_one_eq_iff (id : ℕ) : (id : ℤ) - 1 = (k : ℤ) ↔ id = k + 1 := by omega

theorem rxHander_edgeHello (s : ErppRun) (he : pkt.erpp_type = edgeHelloPacket) :
    erppPacketRxHander host rx pkt s = erppPacketEdgeHelloProcess host rx pkt s := by
  simp [erppPacketRxHander, he, edgeHelloPacket, helloPacket, completeFlushPacket,
    commonFlushPacket, linkDownPacket]

theorem rxHander_ring :
    (erppPacketRxHander host rx pkt s).entry.ring k = (s.entry.ring k).heard host pkt k := by
  have hset (d : ErppDomain) (r : ErppRing) :
      (d.setRing ((pkt.ring_id : ℤ) - 1) r).ring k =
        if pkt.ring_id = k + 1 then r else d.ring k := by
    simp only [setRing_ring, id_sub_one_eq_iff]
  have hget (h : pkt.ring_id = k + 1) :
      s.entry.ringAt host.stray (pkt.ring_id - 1) = s.entry.ring k := by
    rw [(id_sub_one_eq_iff _).mpr h, ringAt_val]
  unfold erppPacketRxHander ErppRing.heard ErppRing.received
  split
  · unfold erppPacketHelloProcess
    dsimp only
    split_ifs <;> simp_all [helloPacket, edgeHelloPacket]
  split
  · unfold erppPacketCompleteFlushProcess
    split_ifs <;> simp_all [completeFlushPacket, edgeHelloPacket]
  split
  · next ht =>
    simp [ht, commonFlushPacket, linkDownPacket, faultPacket, edgeHelloPacket,
      erppPacketCommonFlushProcess]
  split
  · unfold erppPacketLinkDownProcess
    dsimp only
    split_ifs <;> simp_all [linkDownPacket, edgeHelloPacket]
  split
  · unfold erppPacketEdgeHelloProcess
    dsimp only
    by_cases hk : pkt.ring_id = k <;> split_ifs <;>
      simp_all [edgeHelloPacket, faultPacket, setRing_ring]
  split
  · unfold erppPacketFaultProcess
    dsimp only
    split_ifs <;> simp_all [faultPacket, edgeHelloPacket]
  · simp_all

variable {d : ErppDomain}

theorem rxDomain_ring_named (hid : pkt.ring_id = k + 1) (he : (d.ring k).is_enable = true) :
    (rxDomain host rx pkt d).entry.ring k = (d.ring k).received host pkt := by
  have hi : (pkt.ring_id : ℤ) - 1 = k := (id_sub_one_eq_iff _).mpr hid
  unfold rxDomain
  dsimp only
  rw [hi, ringAt_val, if_pos he, rxHander_ring, ErppRing.heard, if_pos hid]
  rfl

theorem rxDomain_ports_other (h : ¬ (pkt.ring_id = k + 1 ∧ (d.ring k).is_enable = true)) :
    ((rxDomain host rx pkt d).entry.ring k).ports = (d.ring k).ports := by
  unfold rxDomain
  dsimp only
  split
  swap
  · rfl
  next he =>
  have hid : pkt.ring_id ≠ k + 1 := by
    intro hid
    rw [(id_sub_one_eq_iff _).mpr hid, ringAt_val] at he
    exact h ⟨hid, he⟩
  rw [rxHander_ring, ErppRing.heard, if_neg hid]
  split <;> rfl

end

end Chanos.Erpp

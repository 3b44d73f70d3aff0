import Chanos.Erpp.Timer
import Chanos.Lib.Trace

/-!
# Flushes

When the record of a domain is stored, `erpp_handle_update` compares it with the one before and sends
npd a message for each ring that changed (`erpp_dbus.c`). A handler asks for a flush with
`flush_flag`, and the message says so only if the flag was clear before. Which flushes reach npd can
be told from the record before the event (`flushes_reach_iff`).
-/

namespace Chanos.Erpp

open Lib List

/-- A message to npd (`erpp_send_msg_to_npd`). -/
structure NpdMsg where
  port0 : ErppPort
  port1 : ErppPort
  protect_instance_id : ℕ
  flush_flag : Bool
  is_enable : Bool

def ErppRing.Differs (r old : ErppRing) : Prop :=
  r.ring_id ≠ 0 ∧
    if r.is_enable ≠ old.is_enable then
      r.node.port0.netif_index ≠ 0 ∨ r.node.port1.netif_index ≠ 0
    else r.is_enable = true ∧ r.ports ≠ old.ports

instance (r old : ErppRing) : Decidable (r.Differs old) := inferInstanceAs (Decidable (_ ∧ _))

def erppHandleUpdate (isMasterActive : Bool) (protect_instance_id : ℕ) (new old : ErppDomain) :
    List NpdMsg :=
  let flush_flag := if new.flush_flag = old.flush_flag then false else new.flush_flag
  if isMasterActive then
    (timerRings.filter fun k => (new.ring k).Differs (old.ring k)).map fun k =>
      ⟨(new.ring k).node.port0, (new.ring k).node.port1, protect_instance_id, flush_flag,
        (new.ring k).is_enable⟩
  else []

inductive DomainEvent
  | packet (rx : ℕ) (pkt : ErppPacket)
  | linkdown (netif : ℕ)
  | linkup (netif : ℕ)
  | tick

namespace ErppDomain

variable (host : Daemon) (d : ErppDomain) (e : DomainEvent)

def step : DomainEvent → ErppDomain
  | .packet rx pkt => (erppPacketRxCallback host rx pkt [d]).elim d (·.entry)
  | .linkdown netif => (linkdownDomain host netif d).entry
  | .linkup netif => linkupDomain netif d
  | .tick => (erppDomainTimerHandler host d).entry

/-- The handler of the event sets `flush_flag`: it is set afterwards, whatever it was before. -/
def AsksFlush : Prop := ∀ flush_flag, (step host { d with flush_flag } e).flush_flag = true

/-- The update of the entry sends a flush. -/
def FlushSent (protect_instance_id : ℕ) : Prop :=
  ∃ msg ∈ erppHandleUpdate true protect_instance_id (d.step host e) d, msg.flush_flag = true

instance : Decidable (d.AsksFlush host e) := inferInstanceAs (Decidable (∀ _ : Bool, _))

instance (protect_instance_id : ℕ) : Decidable (d.FlushSent host e protect_instance_id) :=
  inferInstanceAs (Decidable (∃ msg ∈ _, _))

end ErppDomain

/-! ## Which events ask for a flush, and which of the flushes are sent -/

section

variable (host : Daemon) (pkt : ErppPacket)

/-- The handler of the packet decides to flush when the ring that it names is `r`. -/
def ErppRing.FlushesOn (r : ErppRing) : Prop :=
  (pkt.erpp_type = helloPacket ∧ pkt.sys_mac = host.sys_mac ∧
      r.node.erpp_node_status = nodeFail) ∨
    pkt.erpp_type = completeFlushPacket ∨ pkt.erpp_type = commonFlushPacket ∨
    (pkt.erpp_type = linkDownPacket ∧ r.IsMaster)

/-- A packet on which the handler decides to flush opens or closes a port of the ring `r`. -/
def ErppRing.MovesOn (r : ErppRing) : Prop :=
  (pkt.erpp_type = helloPacket ∧ r.ports = (.forwarding, .forwarding)) ∨
    (pkt.erpp_type = completeFlushPacket ∧ pkt.sys_mac ≠ host.sys_mac ∧
      r.node.erpp_node_status = preForwarding ∧ r.ports ≠ (.forwarding, .forwarding)) ∨
    (pkt.erpp_type = linkDownPacket ∧
      r.ports ≠ (.forwarding, if r.level = 1 then .forwarding else .block))

/-- The handler of the event decides to flush. -/
def ErppDomain.Decides (d : ErppDomain) : DomainEvent → Prop
  | .packet _ pkt =>
    pkt.ring_id ≤ erppRingSize ∧ d.domain_id = pkt.domain_id ∧
      (d.ringAt host.stray (pkt.ring_id - 1)).is_enable = true ∧
      (d.ringAt host.stray (pkt.ring_id - 1)).FlushesOn host pkt
  | .tick => ∃ k, (d.ring k).ActiveMaster ∧ d.failCountAt k = 0
  | .linkdown _ | .linkup _ => False

/-- A port of a ring of the domain with an id opens or closes at the decision to flush. -/
def ErppDomain.MovesPort (d : ErppDomain) : DomainEvent → Prop
  | .packet _ pkt =>
    ∃ k : Fin 4, pkt.ring_id = k + 1 ∧ (d.ring k).ring_id ≠ 0 ∧ (d.ring k).MovesOn host pkt
  | .tick => ∃ k, (d.ring k).ring_id ≠ 0 ∧ (d.ring k).ActiveMaster ∧ d.failCountAt k = 0 ∧
    (d.ring k).node.port1.erpp_port_status = .block
  | .linkdown _ | .linkup _ => False

end

section

variable (host : Daemon) (rx : ℕ) (pkt : ErppPacket) {s : ErppRun} {d : ErppDomain} {r : ErppRing}

@[simp]
theorem ErppDomain.setRing_flush_flag (i : ℤ) : (d.setRing i r).flush_flag = d.flush_flag := by
  unfold setRing
  split <;> rfl

theorem rxHander_flush_flag :
    (erppPacketRxHander host rx pkt s).entry.flush_flag = true ↔
      s.entry.flush_flag = true ∨
        (s.entry.ringAt host.stray (pkt.ring_id - 1)).FlushesOn host pkt := by
  unfold erppPacketRxHander ErppRing.FlushesOn
  have hty : ([helloPacket, completeFlushPacket, commonFlushPacket, linkDownPacket, edgeHelloPacket,
    faultPacket] : List ℕ).Nodup := by decide
  simp only [nodup_cons, mem_cons, not_mem_nil, or_false, not_or] at hty
  split_ifs with h1 h2 h3 h4 h5 h6
  · unfold erppPacketHelloProcess
    dsimp only
    split_ifs <;> simp_all
  · simp_all [erppPacketCompleteFlushProcess]
  · simp_all [erppPacketCommonFlushProcess]
  · unfold erppPacketLinkDownProcess
    dsimp only
    split_ifs <;> simp_all
  · unfold erppPacketEdgeHelloProcess
    dsimp only
    split_ifs <;> simp_all
  · unfold erppPacketFaultProcess
    dsimp only
    split_ifs <;> simp_all
  · simp_all

theorem timerHandler_flush_flag :
    (erppDomainTimerHandler host d).entry.flush_flag = true ↔
      d.flush_flag = true ∨ ∃ k, (d.ring k).ActiveMaster ∧ d.failCountAt k = 0 := by
  -- the turns one by one: each finds its ring and the count of failure as they are known
  have hturn (k : Fin 4) :
      (timerRing host ((ringsBefore k).foldl (timerRing host) (.start d)) k).entry.flush_flag =
        (((ringsBefore k).foldl (timerRing host) (.start d)).entry.flush_flag ||
          decide ((d.ring k).ActiveMaster ∧ d.failCountAt k = 0)) := by
    have hr := foldl_timerRing_ring_of_notMem host k (s := .start d) (notMem_ringsBefore k)
    rw [(timerRing_spec host _ k).flush_flag, hr, (foldl_timerRing_spec host _ _).count1]
    rfl
  have hlast := (hturn 3).trans (congrArg (· || _) ((hturn 2).trans (congrArg (· || _)
    ((hturn 1).trans (congrArg (· || _) (hturn 0))))))
  have hfour (P : Fin 4 → Prop) : (∃ k, P k) ↔ P 0 ∨ P 1 ∨ P 2 ∨ P 3 := by
    simp [Fin.exists_fin_succ]
  change (erppDomainTimerHandler host d).entry.flush_flag = _ at hlast
  rw [hlast, hfour]
  simp only [Bool.or_eq_true, decide_eq_true_eq, or_assoc]
  rfl

theorem linkdownDomain_flush_flag (netif : ℕ) :
    (linkdownDomain host netif d).entry.flush_flag = d.flush_flag := by
  have hring (s : ErppRun) (k : Fin 4) :
      (linkdownRing host netif s k).entry.flush_flag = s.entry.flush_flag := by
    unfold linkdownRing announce
    dsimp only
    split
    · rfl
    · rw [ErppRun.txTypePacket_entry]
      split <;> rfl
  exact (hring _ 2).trans ((hring _ 1).trans (hring _ 0))

namespace ErppRing

theorem sameConfig_received : r.SameConfig (r.received host pkt) := by
  unfold received closeSecondary completeFlush linkDownReceived
  split_ifs <;> exact ⟨rfl, rfl, rfl, rfl, rfl, rfl⟩

theorem SameConfig.differs_iff {r r' : ErppRing} (h : r.SameConfig r') :
    r'.Differs r ↔ r.ring_id ≠ 0 ∧ r.is_enable = true ∧ r'.ports ≠ r.ports := by
  rw [Differs, h.ring_id, h.is_enable, if_neg (not_not.mpr rfl)]

theorem received_ports_ne_iff (h : r.FlushesOn host pkt) :
    (r.received host pkt).ports ≠ r.ports ↔ r.MovesOn host pkt := by
  unfold received MovesOn
  have hty : helloPacket ≠ completeFlushPacket ∧ helloPacket ≠ linkDownPacket ∧
      completeFlushPacket ≠ linkDownPacket ∧ commonFlushPacket ≠ helloPacket ∧
      commonFlushPacket ≠ completeFlushPacket ∧ commonFlushPacket ≠ linkDownPacket ∧
      commonFlushPacket ≠ faultPacket := by decide
  rcases r with ⟨id, level, en, role, status, ⟨if0, s0⟩, ⟨if1, s1⟩⟩
  rcases h with ⟨ht, hm, hs⟩ | ht | ht | ⟨ht, hm⟩
  · cases s0 <;> cases s1 <;> simp_all [closeSecondary, withPorts, withStatus, ports]
  · cases s0 <;> cases s1 <;> grind [completeFlush, withPorts, withStatus, ports]
  · simp_all
  · cases s0 <;> cases s1 <;> grind [linkDownReceived, withPorts, withStatus, ports]

theorem ticked_ports_ne_iff (count1 count2 : ℤ) :
    (r.ticked count1 count2).ports ≠ r.ports ↔
      r.ActiveMaster ∧ count1 = 0 ∧ r.node.port1.erpp_port_status = .block := by
  unfold ticked
  split_ifs with hf
  · cases hs : r.node.port1.erpp_port_status <;> simp [failed, withPorts, withStatus, ports, hs, hf]
  · exact iff_of_false (fun h => h rfl) fun h => hf ⟨h.1, h.2.1⟩
  · exact iff_of_false (fun h => h rfl) fun h => hf ⟨h.1, h.2.1⟩

end ErppRing

open ErppRing

theorem rxDomain_sameConfig (k : Fin 4) :
    (d.ring k).SameConfig ((rxDomain host rx pkt d).entry.ring k) := by
  unfold rxDomain
  dsimp only
  split
  · rw [rxHander_ring, heard]
    split_ifs
    · exact sameConfig_received host pkt
    · exact ⟨rfl, rfl, rfl, rfl, rfl, rfl⟩
    · exact .refl _
  · exact .refl _

namespace ErppDomain

theorem step_packet (d : ErppDomain) : d.step host (.packet rx pkt) =
    if pkt.ring_id ≤ erppRingSize ∧ d.domain_id = pkt.domain_id then
      (rxDomain host rx pkt d).entry
    else d := by
  unfold step erppPacketRxCallback
  by_cases hid : pkt.ring_id ≤ erppRingSize
  · by_cases hd : d.domain_id = pkt.domain_id <;> simp [hid, hd, Nat.not_lt.mpr hid]
  · simp [hid, Nat.not_le.mp hid]

theorem asksFlush_iff (e : DomainEvent) : d.AsksFlush host e ↔ d.Decides host e := by
  cases e with
  | packet rx pkt =>
    have hflag (flush_flag : Bool) :
        (step host { d with flush_flag } (.packet rx pkt)).flush_flag = true ↔
          flush_flag = true ∨ d.Decides host (.packet rx pkt) := by
      rw [step_packet]
      split
      · next h =>
        unfold rxDomain
        dsimp only
        split
        · next he =>
          rw [rxHander_flush_flag]
          exact or_congr_right ⟨fun hf => ⟨h.1, h.2, he, hf⟩, fun hd => hd.2.2.2⟩
        · next he => exact (or_iff_left fun hd : d.Decides host (.packet rx pkt) => he hd.2.2.1).symm
      · next h => exact (or_iff_left fun hd : d.Decides host (.packet rx pkt) => h ⟨hd.1, hd.2.1⟩).symm
    refine (forall_congr' hflag).trans ⟨fun h => ?_, fun h _ => .inr h⟩
    exact (h false).resolve_left Bool.false_ne_true
  | tick =>
    refine (forall_congr' fun flag => timerHandler_flush_flag host).trans ⟨fun h => ?_, fun h _ => .inr h⟩
    exact (h false).resolve_left Bool.false_ne_true
  | linkdown netif =>
    refine iff_of_false (fun h => ?_) id
    exact Bool.false_ne_true ((linkdownDomain_flush_flag host netif).symm.trans (h false))
  | linkup netif => exact iff_of_false (fun h => Bool.false_ne_true (h false)) id

theorem Decides.differs_iff {e : DomainEvent} (h : d.Decides host e) :
    (∃ k, ((d.step host e).ring k).Differs (d.ring k)) ↔ d.MovesPort host e := by
  cases e with
  | packet rx pkt =>
    obtain ⟨hid, hd, he, hf⟩ := h
    rw [step_packet, if_pos ⟨hid, hd⟩]
    refine exists_congr fun k => ?_
    rw [(rxDomain_sameConfig host rx pkt k).differs_iff]
    by_cases hk : pkt.ring_id = k + 1
    · rw [(id_sub_one_eq_iff _).mpr hk, ringAt_val] at he hf
      rw [rxDomain_ring_named host rx pkt hk he, received_ports_ne_iff host pkt hf]
      simp [hk, he]
    · rw [rxDomain_ports_other host rx pkt fun h => hk h.1]
      simp [hk]
  | tick =>
    refine exists_congr fun k => ?_
    obtain ⟨count2, hr⟩ := timerHandler_ring host d k
    change ((erppDomainTimerHandler host d).entry.ring k).Differs _ ↔ _
    rw [hr, (sameConfig_ticked _ _).differs_iff, ticked_ports_ne_iff]
    exact and_congr_right fun _ => and_iff_right_of_imp fun h => h.1.1
  | linkdown netif => exact h.elim
  | linkup netif => exact h.elim

theorem flushSent_iff {e : DomainEvent} (h : d.AsksFlush host e) (protect_instance_id : ℕ) :
    d.FlushSent host e protect_instance_id ↔ d.flush_flag = false ∧ d.MovesPort host e := by
  have hf : (d.step host e).flush_flag = true := h d.flush_flag
  rw [← ((asksFlush_iff host e).mp h).differs_iff]
  simp [FlushSent, erppHandleUpdate, hf, mem_timerRings, and_comm]

end ErppDomain

end

namespace ErppDomain

/-- **When every flush reaches the switch**: at each decision to flush the flag is still clear, and
the event opens or closes a port of a ring that has an id. -/
theorem flushes_reach_iff (host : Daemon) (protect_instance_id : ℕ) (es : List DomainEvent)
    (d : ErppDomain) :
    Meets (fun d e => some (step host d e))
        (fun d e => d.AsksFlush host e → d.FlushSent host e protect_instance_id) es d ↔
      Meets (fun d e => some (step host d e))
        (fun d e => d.Decides host e → d.flush_flag = false ∧ d.MovesPort host e) es d := by
  have h : (fun d e => AsksFlush host d e → FlushSent host d e protect_instance_id) = fun d e =>
      Decides host d e → d.flush_flag = false ∧ d.MovesPort host e := by
    funext d e
    rw [← asksFlush_iff]
    exact propext (forall_congr' fun ha => flushSent_iff host ha protect_instance_id)
  rw [h]

def blockedMaster : ErppDomain where
  domain_id := 1
  control_vlan_id := 100
  hello_timer := 3
  fail_timer := 9
  fault_timer := 9
  timer_count0 := 3
  timer_count1 := 9
  timer_count2 := 9
  flush_flag := false
  packet_ring := 1
  ring := fun k =>
    if k = 0 then ⟨1, 1, true, ⟨.master, nodeComplete, ⟨5, .forwarding⟩, ⟨6, .block⟩⟩⟩
    else clearedRing

def ringPacket (erpp_type : ℕ) : DomainEvent :=
  .packet 5 ⟨100, erpp_type, 1, 1, Bytes.zero 6, 3, 9, 1⟩

def quietHost : Daemon := ⟨Bytes.zero 6, fun _ => clearedRing⟩

/-- The ring fails and is complete again, and npd is told to flush for the failure alone. -/
theorem second_flush_lost :
    blockedMaster.FlushSent quietHost (ringPacket linkDownPacket) 0 ∧
    ¬Meets (fun d e => some (step quietHost d e))
        (fun d e => d.AsksFlush quietHost e → d.FlushSent quietHost e 0)
        [ringPacket linkDownPacket, ringPacket helloPacket] blockedMaster := by
  refine ⟨by decide, fun h => ?_⟩
  have hl := (h.2 _ rfl).1 (by decide)
  revert hl
  decide

end ErppDomain

end Chanos.Erpp

import Chanos.Erpp.Timer
import Chanos.Lib.Trace

/-!
# A ring of nodes

A ring of any number of nodes, each with a domain and the handlers of the daemon, joined by links
that keep the order of packets and lose them when they fail. The ring is closed when all links are
up and all ring ports forward. Only four kinds of steps can close it (`never_closed_iff`).
-/

namespace Chanos.Erpp

open Lib Option Function

namespace ErppRing

variable {r : ErppRing} {netif : ℕ}

theorem sameConfig_linkup (r : ErppRing) (netif : ℕ) : r.SameConfig (r.linkup netif) := by
  unfold linkup
  split
  · rcases r.ports with ⟨_ | _, _ | _⟩ <;> dsimp only <;> split_ifs <;>
      exact ⟨rfl, rfl, rfl, rfl, rfl, rfl⟩
  · exact .refl r

theorem linkup_of_disabled (h : r.is_enable ≠ true) : r.linkup netif = r :=
  if_neg fun hh => h hh.1

theorem linkup_ports_ne (h : r.Hears netif) :
    (r.linkup netif).ports ≠ (.forwarding, .forwarding) := by
  unfold linkup
  rw [if_pos h]
  rcases hp : r.ports with ⟨_ | _, _ | _⟩ <;> dsimp only <;> split_ifs <;>
    simp only [ports, withPorts, withStatus, Prod.mk.injEq] at hp ⊢ <;> simp [hp]

def OpenedBy (r : ErppRing) (host : Daemon) (pkt : ErppPacket) : Prop :=
  pkt.erpp_type = completeFlushPacket ∧ pkt.sys_mac ≠ host.sys_mac ∧
      r.node.erpp_node_status = preForwarding ∨
    pkt.erpp_type = linkDownPacket ∧ r.IsMaster ∧ r.level = 1

variable {host : Daemon} {pkt : ErppPacket}

theorem completeFlush_ports (h : r.node.erpp_node_status = preForwarding) :
    r.completeFlush.ports = (.forwarding, .forwarding) := by
  unfold completeFlush
  rw [if_pos h]
  split
  · rfl
  next hps =>
  obtain ⟨h0, h1⟩ := not_or.mp hps
  have ho : ∀ p : PortStatus, p ≠ .block → p = .forwarding := by
    rintro (_ | _) hp
    · rfl
    · exact absurd rfl hp
  exact Prod.ext (ho _ h0) (ho _ h1)

theorem received_ports_of_openedBy (h : r.OpenedBy host pkt) :
    (r.received host pkt).ports = (.forwarding, .forwarding) := by
  unfold received
  rcases h with ⟨ht, hma, hsa⟩ | ⟨ht, hms, hlv⟩
  · rw [if_neg (by simp [ht, completeFlushPacket, helloPacket]), if_pos ht, if_pos hma]
    exact completeFlush_ports hsa
  rw [if_neg (by simp [ht, linkDownPacket, helloPacket]),
    if_neg (by simp [ht, linkDownPacket, completeFlushPacket]), if_pos ht, if_pos hms]
  unfold linkDownReceived
  rw [if_pos hlv]
  rfl

theorem ports_of_received (h : ¬ r.OpenedBy host pkt)
    (ho : (r.received host pkt).ports = (.forwarding, .forwarding)) :
    r.ports = (.forwarding, .forwarding) := by
  unfold received at ho
  split at ho
  · -- a hello of its own closes the secondary port
    split_ifs at ho
    · exact ho
    all_goals exact absurd ho (closeSecondary_ports r)
  split at ho
  · next ht =>
    split at ho
    · next hma =>
      unfold completeFlush at ho
      rw [if_neg fun hsa => h (.inl ⟨ht, hma, hsa⟩)] at ho
      exact ho
    · exact ho
  split at ho
  · next ht =>
    split at ho
    · next hms =>
      unfold linkDownReceived at ho
      rw [if_neg fun hlv => h (.inr ⟨ht, hms, hlv⟩)] at ho
      cases ho
    · exact ho
  split at ho
  · split at ho
    · exact absurd (congrArg Prod.snd ho) (by simp [ports, withPorts])
    · exact ho
  · exact ho

end ErppRing

/-! ## The network -/

/-- What is fixed about a ring of `n + 1` nodes: the daemons, the port of each node on the link to
the next node, and the place of the ring in the domains. -/
structure Network (n : ℕ) where
  host : Fin (n + 1) → Daemon
  nextPort : Fin (n + 1) → Fin 2
  ring : Fin 4

/-- The state of the nodes and of the links. -/
structure NetState (n : ℕ) where
  node : Fin (n + 1) → ErppDomain
  up : Fin (n + 1) → Bool
  forth : Fin (n + 1) → List ErppPacket
  back : Fin (n + 1) → List ErppPacket

inductive NetEvent (n : ℕ)
  | fail (i : Fin (n + 1))
  | recover (i : Fin (n + 1))
  | tick (i : Fin (n + 1))
  | deliverForth (i : Fin (n + 1))
  | deliverBack (i : Fin (n + 1))

open ErppRing

namespace Network

variable {n : ℕ} (net : Network n) (s : NetState n) (i : Fin (n + 1))

def ringOf : ErppRing := (s.node i).ring net.ring

def nextNetif : ℕ :=
  ((net.ringOf s i).node.port (net.nextPort i)).netif_index

def prevNetif : ℕ :=
  ((net.ringOf s i).node.port (net.nextPort i).rev).netif_index

/-- A node sends a packet through an interface: onto the link that the interface is on, if that is
up. -/
def send (s : NetState n) (x : ℕ × ErppPacket) : NetState n :=
  if x.1 = net.nextNetif s i then
    if s.up i then { s with forth := update s.forth i (s.forth i ++ [x.2]) } else s
  else if x.1 = net.prevNetif s i then
    if s.up (i - 1) then
      { s with back := update s.back (i - 1) (s.back (i - 1) ++ [x.2]) }
    else s
  else s

def handled (run : ErppRun) : NetState n :=
  run.sent.foldl (net.send i) { s with node := update s.node i run.entry }

def linkdownAt (netif : ℕ) : NetState n :=
  net.handled s i (linkdownDomain (net.host i) netif (s.node i))

def linkupAt (netif : ℕ) : NetState n :=
  { s with node := update s.node i (linkupDomain netif (s.node i)) }

def receive (rx : ℕ) (pkt : ErppPacket) : NetState n :=
  match erppPacketRxCallback (net.host i) rx pkt [s.node i] with
  | none => s
  | some run => net.handled s i run

def step : NetEvent n → Option (NetState n)
  | .fail i =>
    if s.up i then
      let s : NetState n := { s with
        up := update s.up i false
        forth := update s.forth i []
        back := update s.back i [] }
      let s := net.linkdownAt s i (net.nextNetif s i)
      some (net.linkdownAt s (i + 1) (net.prevNetif s (i + 1)))
    else none
  | .recover i =>
    if s.up i then none
    else
      let s : NetState n := { s with up := update s.up i true }
      let s := linkupAt s i (net.nextNetif s i)
      some (linkupAt s (i + 1) (net.prevNetif s (i + 1)))
  | .tick i => some (net.handled s i (erppDomainTimerHandler (net.host i) (s.node i)))
  | .deliverForth i =>
    match s.forth i with
    | [] => none
    | pkt :: rest =>
      let s : NetState n := { s with forth := update s.forth i rest }
      some (net.receive s (i + 1) (net.prevNetif s (i + 1)) pkt)
  | .deliverBack i =>
    match s.back i with
    | [] => none
    | pkt :: rest =>
      let s : NetState n := { s with back := update s.back i rest }
      some (net.receive s i (net.nextNetif s i) pkt)

def Open : Prop :=
  (net.ringOf s i).ports = (.forwarding, .forwarding)

instance (s : NetState n) (i : Fin (n + 1)) : Decidable (net.Open s i) :=
  inferInstanceAs (Decidable (_ = _))

/-- Every link is up and every port of the ring forwards. -/
def Closed : Prop := (∀ i, s.up i = true) ∧ ∀ i, net.Open s i

instance (s : NetState n) : Decidable (net.Closed s) := inferInstanceAs (Decidable (_ ∧ _))

def OthersOpen : Prop :=
  (∀ l, s.up l = true) ∧ ∀ j, j ≠ i → net.Open s j

def Opens (pkt : ErppPacket) : Prop :=
  pkt.domain_id = (s.node i).domain_id ∧ pkt.ring_id = (net.ring : ℕ) + 1 ∧
    (net.ringOf s i).is_enable = true ∧ (net.ringOf s i).OpenedBy (net.host i) pkt

/-- The event does not close an open ring. -/
def KeepsOpen : NetEvent n → Prop
  | .fail _ => True
  | .recover i =>
    net.ring ≠ 3 ∧ ((net.ringOf s i).is_enable = true ∨ (net.ringOf s (i + 1)).is_enable = true) ∨
      ¬ ((∀ l, l ≠ i → s.up l = true) ∧ ∀ j, net.Open s j)
  | .tick i =>
    (net.ringOf s i).ActiveMaster → (s.node i).failCountAt net.ring = 0 →
      (net.ringOf s i).node.port0.erpp_port_status = .forwarding → ¬ net.OthersOpen s i
  | .deliverForth i =>
    ∀ pkt ∈ (s.forth i).head?, net.Opens s (i + 1) pkt → ¬ net.OthersOpen s (i + 1)
  | .deliverBack i => ∀ pkt ∈ (s.back i).head?, net.Opens s i pkt → ¬ net.OthersOpen s i

section

variable {s : NetState n} {i : Fin (n + 1)}

theorem send_node (x : ℕ × ErppPacket) : (net.send i s x).node = s.node := by
  unfold send
  split_ifs <;> rfl

theorem send_up (x : ℕ × ErppPacket) : (net.send i s x).up = s.up := by
  unfold send
  split_ifs <;> rfl

theorem foldl_send (sent : List (ℕ × ErppPacket)) :
    (sent.foldl (net.send i) s).node = s.node ∧ (sent.foldl (net.send i) s).up = s.up := by
  induction sent generalizing s with
  | nil => exact ⟨rfl, rfl⟩
  | cons x sent ih =>
    obtain ⟨hn, hup⟩ := ih (s := net.send i s x)
    exact ⟨hn.trans (net.send_node x), hup.trans (net.send_up x)⟩

theorem handled_node (run : ErppRun) : (net.handled s i run).node = update s.node i run.entry :=
  (net.foldl_send run.sent).1

theorem handled_up (run : ErppRun) : (net.handled s i run).up = s.up := (net.foldl_send run.sent).2

theorem closed_handled_iff (run : ErppRun) :
    net.Closed (net.handled s i run) ↔
      net.OthersOpen s i ∧ (run.entry.ring net.ring).ports = (.forwarding, .forwarding) := by
  unfold Closed OthersOpen Open ringOf
  rw [net.handled_node, net.handled_up, and_assoc]
  refine and_congr_right fun _ => ⟨fun h => ⟨fun j hj => ?_, ?_⟩, fun h j => ?_⟩
  · have ho := h j
    rwa [update_of_ne hj] at ho
  · have hse := h i
    rwa [update_self] at hse
  · by_cases hj : j = i
    · subst hj
      rw [update_self]
      exact h.2
    · rw [update_of_ne hj]
      exact h.1 j hj

theorem OthersOpen.closed (h : net.OthersOpen s i) (ho : net.Open s i) : net.Closed s := by
  refine ⟨h.1, fun j => ?_⟩
  by_cases hj : j = i
  · rwa [hj]
  · exact h.2 j hj

end

/-! ## Which steps close the loop -/

section

variable {s s' : NetState n} {i : Fin (n + 1)}

theorem not_closed_handled_rxDomain_iff (h : ¬ net.Closed s) (rx : ℕ) (pkt : ErppPacket)
    (hd : pkt.domain_id = (s.node i).domain_id) :
    ¬ net.Closed (net.handled s i (rxDomain (net.host i) rx pkt (s.node i))) ↔
      (net.Opens s i pkt → ¬ net.OthersOpen s i) := by
  rw [net.closed_handled_iff]
  by_cases hnm : pkt.ring_id = (net.ring : ℕ) + 1 ∧ (net.ringOf s i).is_enable = true
  · rw [rxDomain_ring_named _ _ _ hnm.1 hnm.2]
    by_cases ho : (net.ringOf s i).OpenedBy (net.host i) pkt
    · have hp := received_ports_of_openedBy ho
      refine ⟨fun hn _ hot => hn ⟨hot, hp⟩, fun hcd hc => ?_⟩
      exact hcd ⟨hd, hnm.1, hnm.2, ho⟩ hc.1
    · refine ⟨fun _ hop => absurd hop.2.2.2 ho, fun _ hc => ?_⟩
      exact h (OthersOpen.closed net hc.1 (ports_of_received ho hc.2))
  · rw [rxDomain_ports_other _ _ _ hnm]
    refine ⟨fun _ hop => absurd ⟨hop.2.1, hop.2.2.1⟩ hnm, fun _ hc => ?_⟩
    exact h (OthersOpen.closed net hc.1 hc.2)

theorem not_closed_receive_iff (h : ¬ net.Closed s) (rx : ℕ) (pkt : ErppPacket) :
    ¬ net.Closed (net.receive s i rx pkt) ↔ (net.Opens s i pkt → ¬ net.OthersOpen s i) := by
  -- a refused packet changes nothing, and is none that opens ports
  have hr : (net.Opens s i pkt → False) →
      (¬ net.Closed s ↔ (net.Opens s i pkt → ¬ net.OthersOpen s i)) :=
    fun hn => ⟨fun _ hop => absurd hop hn, fun _ => h⟩
  unfold receive erppPacketRxCallback
  split_ifs with hid
  · refine hr fun hop => ?_
    have hrg := hop.2.1
    unfold erppRingSize at hid
    omega
  · by_cases hd : pkt.domain_id = (s.node i).domain_id
    · have hf : ([s.node i].find? fun d => d.domain_id = pkt.domain_id) = some (s.node i) := by
        simp [hd]
      rw [hf]
      exact net.not_closed_handled_rxDomain_iff h rx pkt hd
    · have hf : ([s.node i].find? fun d => d.domain_id = pkt.domain_id) = none := by
        simp [Ne.symm hd]
      rw [hf]
      exact hr fun hop => hd hop.1

theorem not_closed_tick_iff (h : ¬ net.Closed s) (i : Fin (n + 1)) :
    ¬ net.Closed (net.handled s i (erppDomainTimerHandler (net.host i) (s.node i))) ↔
      net.KeepsOpen s (.tick i) := by
  obtain ⟨count2, hr⟩ : ∃ count2,
      (erppDomainTimerHandler (net.host i) (s.node i)).entry.ring net.ring =
        (net.ringOf s i).ticked ((s.node i).failCountAt net.ring) count2 :=
    timerHandler_ring (net.host i) (s.node i) net.ring
  rw [net.closed_handled_iff, hr, ticked]
  split_ifs with hf
  · have hp : (net.ringOf s i).failed.ports = (.forwarding, .forwarding) ↔
        (net.ringOf s i).node.port0.erpp_port_status = .forwarding :=
      ⟨congrArg Prod.fst, fun ho => Prod.ext ho rfl⟩
    refine ⟨fun hn _ _ ho hot => hn ⟨hot, hp.mpr ho⟩, fun hcd hcl => ?_⟩
    exact hcd hf.1 hf.2 (hp.mp hcl.2) hcl.1
  all_goals
    refine ⟨fun _ hms hc => absurd ⟨hms, hc⟩ hf, fun _ hcl => ?_⟩
    exact h (OthersOpen.closed net hcl.1 hcl.2)

theorem ringOf_linkupAt (s : NetState n) (i : Fin (n + 1)) (netif : ℕ) (j : Fin (n + 1)) :
    net.ringOf (linkupAt s i netif) j =
      if j = i ∧ net.ring ≠ 3 then (net.ringOf s j).linkup netif else net.ringOf s j := by
  dsimp only [ringOf, linkupAt]
  by_cases hj : j = i
  · subst hj
    rw [update_self, linkupDomain_ring]
    simp only [true_and]
  · rw [update_of_ne hj, if_neg fun h => hj h.1]

theorem hears_port {r : ErppRing} (he : r.is_enable = true) (p : Fin 2) :
    r.Hears (r.node.port p).netif_index := by
  refine ⟨he, ?_⟩
  unfold ErppNode.port
  split
  · exact .inl rfl
  · exact .inr rfl

theorem not_closed_recover_iff (i : Fin (n + 1)) (s₀ s₁ s₂ : NetState n)
    (h₀ : s₀ = { s with up := update s.up i true }) (h₁ : s₁ = linkupAt s₀ i (net.nextNetif s₀ i))
    (h₂ : s₂ = linkupAt s₁ (i + 1) (net.prevNetif s₁ (i + 1))) :
    ¬ net.Closed s₂ ↔ net.KeepsOpen s (.recover i) := by
  have hring₀ : ∀ j, net.ringOf s₀ j = net.ringOf s j := fun j => by rw [h₀]; rfl
  have hup : s₂.up = update s.up i true := by rw [h₂, h₁, h₀]; rfl
  have hring₁ := fun j => net.ringOf_linkupAt s₀ i (net.nextNetif s₀ i) j
  have hring₂ := fun j => net.ringOf_linkupAt s₁ (i + 1) (net.prevNetif s₁ (i + 1)) j
  rw [← h₁] at hring₁
  rw [← h₂] at hring₂
  by_cases hwa : net.ring ≠ 3 ∧
      ((net.ringOf s i).is_enable = true ∨ (net.ringOf s (i + 1)).is_enable = true)
  · -- an end of the link that hears of it keeps a port closed
    refine iff_of_true (fun hcl => ?_) (.inl hwa)
    by_cases hnx : (net.ringOf s (i + 1)).is_enable = true
    · have he : (net.ringOf s₁ (i + 1)).is_enable = true := by
        rw [hring₁, hring₀]
        split
        · rwa [(sameConfig_linkup _ _).is_enable]
        · exact hnx
      have ho := hcl.2 (i + 1)
      unfold Open at ho
      rw [hring₂, if_pos ⟨rfl, hwa.1⟩] at ho
      exact linkup_ports_ne (hears_port he _) ho
    · have he := hwa.2.resolve_right hnx
      have hne : i ≠ i + 1 := fun hsm => hnx (hsm ▸ he)
      have ho := hcl.2 i
      unfold Open at ho
      rw [hring₂, if_neg fun hc => hne hc.1, hring₁, if_pos ⟨rfl, hwa.1⟩] at ho
      refine linkup_ports_ne (hears_port ?_ _) ho
      rw [hring₀]
      exact he
  · -- neither end does anything
    have hd : net.ring ≠ 3 → (net.ringOf s i).is_enable ≠ true ∧
        (net.ringOf s (i + 1)).is_enable ≠ true :=
      fun hr => not_or.mp fun he => hwa ⟨hr, he⟩
    have hsame₁ : ∀ j, net.ringOf s₁ j = net.ringOf s j := by
      intro j
      rw [hring₁, hring₀]
      split
      · next hc =>
        obtain ⟨rfl, hr⟩ := hc
        exact linkup_of_disabled (hd hr).1
      · rfl
    have hsm : ∀ j, net.ringOf s₂ j = net.ringOf s j := by
      intro j
      rw [hring₂, hsame₁]
      split
      · next hc =>
        obtain ⟨rfl, hr⟩ := hc
        exact linkup_of_disabled (hd hr).2
      · rfl
    refine ⟨fun hn => .inr fun ha => hn ⟨fun l => ?_, fun j => ?_⟩, fun hc hcl => ?_⟩
    · rw [hup]
      by_cases hl : l = i
      · rw [hl, update_self]
      · rw [update_of_ne hl]
        exact ha.1 l hl
    · unfold Open
      rw [hsm]
      exact ha.2 j
    · refine (hc.resolve_left hwa) ⟨fun l hl => ?_, fun j => ?_⟩
      · have hl' := hcl.1 l
        rwa [hup, update_of_ne hl] at hl'
      · have hj := hcl.2 j
        unfold Open at hj
        rwa [hsm] at hj

theorem not_closed_fail (hst : net.step s (.fail i) = some s') : ¬ net.Closed s' := by
  intro hc
  dsimp only [step] at hst
  split at hst
  · have hup : s'.up i = false := by
      rw [← some.inj hst]
      unfold linkdownAt
      rw [net.handled_up, net.handled_up]
      exact update_self i false s.up
    exact absurd (hc.1 i) (by rw [hup]; decide)
  · cases hst

theorem not_closed_step_iff {e : NetEvent n} (h : ¬ net.Closed s) (hst : net.step s e = some s') :
    ¬ net.Closed s' ↔ net.KeepsOpen s e := by
  cases e with
  | fail i => exact iff_of_true (net.not_closed_fail hst) trivial
  | recover i =>
    dsimp only [step] at hst
    split at hst
    · cases hst
    · rw [← some.inj hst]
      exact net.not_closed_recover_iff i _ _ _ rfl rfl rfl
  | tick i =>
    rw [← some.inj hst]
    exact net.not_closed_tick_iff h i
  | deliverForth i =>
    dsimp only [step] at hst
    split at hst
    · cases hst
    next pkt rest hq =>
    rw [← some.inj hst]
    simp only [KeepsOpen, hq, List.head?_cons, mem_some_iff, forall_eq']
    exact net.not_closed_receive_iff (s := { s with forth := update s.forth i rest }) h _ pkt
  | deliverBack i =>
    dsimp only [step] at hst
    split at hst
    · cases hst
    next pkt rest hq =>
    rw [← some.inj hst]
    simp only [KeepsOpen, hq, List.head?_cons, mem_some_iff, forall_eq']
    exact net.not_closed_receive_iff (s := { s with back := update s.back i rest }) h _ pkt

end

/-- The loop is open in all states of a run from one in which it is open exactly if every step of
the run meets the condition. -/
theorem never_closed_iff {s : NetState n} {tr : List (NetEvent n × NetState n)}
    (hrun : Along (fun s e s' => net.step s e = some s') s tr) (h : ¬ net.Closed s) :
    Along (fun _ _ s' => ¬ net.Closed s') s tr ↔ Along (fun s e _ => net.KeepsOpen s e) s tr :=
  along_invariant_iff (fun _ _ _ hstep hopen => net.not_closed_step_iff hopen hstep) hrun h

end Network

def configuredDomain (stray : ℤ → ErppRing) (nodeMode : ℕ) : ErppDomain :=
  erppDomainRingProcess stray 1 true
    (erppDomainRingConfigureProcess stray 1 nodeMode 1 2 1 (newDomain 1))

def threeNodes : Network 2 where
  host i := ⟨Bytes.six 0 0 0 0 0 (UInt8.ofNat i), fun _ => clearedRing⟩
  nextPort := ![0, 1, 0]
  ring := 0

def threeNodesStart : NetState 2 where
  node i := configuredDomain (threeNodes.host i).stray (if i = 0 then 0 else 1)
  up _ := true
  forth _ := []
  back _ := []

def staleRun : List (NetEvent 2) :=
  [.fail 1, .recover 1, .deliverForth 2, .tick 0, .tick 0, .tick 0, .tick 0, .deliverForth 0,
    .deliverForth 0, .deliverForth 1, .deliverForth 2, .deliverForth 0, .deliverForth 1,
    .deliverBack 0]

/-- The loop is open at the start, and closed at the end of the run. -/
theorem staleRun_closes :
    ¬ threeNodes.Closed threeNodesStart ∧
      (staleRun.foldlM threeNodes.step threeNodesStart).map (fun s => decide (threeNodes.Closed s)) =
        some true := by
  constructor <;> decide +kernel

def threeNodesFailed : NetState 2 :=
  (threeNodes.step threeNodesStart (.fail 1)).getD threeNodesStart

def threeNodesAnnounced : NetState 2 :=
  (threeNodes.step threeNodesFailed (.deliverForth 2)).getD threeNodesFailed

def announcedRun : List (NetEvent 2 × NetState 2) :=
  [(.fail 1, threeNodesFailed), (.deliverForth 2, threeNodesAnnounced)]

/-- While the link is down, the announcement of its failure may open the ports of the master. -/
theorem never_closed_announced :
    Along (fun _ _ s' => ¬ threeNodes.Closed s') threeNodesStart announcedRun := by
  have hrun : Along (fun s e s' => threeNodes.step s e = some s') threeNodesStart announcedRun :=
    ⟨rfl, rfl, trivial⟩
  have hdown : threeNodesFailed.up 1 ≠ true := by decide
  exact (threeNodes.never_closed_iff hrun (by decide)).mpr
    ⟨trivial, fun _ _ _ hothers => hdown (hothers.1 1), trivial⟩

end Chanos.Erpp

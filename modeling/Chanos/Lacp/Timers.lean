import Chanos.Lacp.Receive

/-!
# The timers of a member port

A tick of a port is a turn of `dot3ad_rx_machine` without an LACPDU, of `dot3ad_periodic_machine`
and of `dot3ad_port_selection_logic`. A member of a dynamic trunk whose partner falls silent leaves
the trunk when its receive timer runs out, and one that hears from its partner in time does not,
as long as the trunk has another member besides it (`member_timers`). A port only has a synchronised
partner in `CURRENT` (`Synced`), also after its link has changed, so the members are in `CURRENT`.
-/

namespace Chanos.Lacp

open Lib

variable (p : LacpPort)

/-- The ticks of `AD_FAST_PERIODIC_TIME` and of `AD_SLOW_PERIODIC_TIME` less 3. -/
def periodicLoad : PeriodicState × ℕ :=
  if p.partner_oper.state.lacp_timeout then (.fastPeriodic, 1) else (.slowPeriodic, 27)

/-- The periodic machine of the port runs. -/
def PeriodicActive : Prop :=
  p.vars.portBegin = false ∧ p.vars.lacpEnabled = true ∧ p.is_enabled = true ∧
    (p.actor.state.lacp_activity = true ∨ p.partner_oper.state.lacp_activity = true)

instance (p : LacpPort) : Decidable (PeriodicActive p) := inferInstanceAs (Decidable (_ ∧ _))

def periodicNext : PeriodicState × ℕ :=
  let count :=
    if p.periodic_timer = 1 then (.periodicTx, 0) else (p.periodic_state, p.periodic_timer - 1)
  if ¬PeriodicActive p then (.noPeriodic, p.periodic_timer)
  else if p.periodic_timer ≠ 0 then
    match p.periodic_state with
    | .fastPeriodic =>
      if p.partner_oper.state.lacp_timeout then count else (.slowPeriodic, p.periodic_timer)
    | .slowPeriodic => if p.partner_oper.state.lacp_timeout then (.periodicTx, 0) else count
    | _ => count
  else
    match p.periodic_state with
    | .noPeriodic => (.fastPeriodic, 0)
    | .periodicTx => ((periodicLoad p).1, 0)
    | state => (state, 0)

def dot3adPeriodicMachine : LacpPort :=
  let (state, timer) := periodicNext p
  let p' := { p with periodic_state := state, periodic_timer := timer }
  if state = p.periodic_state then p'
  else
    match state with
    | .noPeriodic => { p' with periodic_timer := 0 }
    | .fastPeriodic => { p' with periodic_timer := 1 }
    | .slowPeriodic => { p' with periodic_timer := 27 }
    | .periodicTx =>
      { p' with
        ntt := true, periodic_state := (periodicLoad p).1, periodic_timer := (periodicLoad p).2 }
    | .dummy => p'

/-- A port, and whether it is a member of a dynamic trunk. -/
structure TrunkPort where
  port : LacpPort
  in_trunk : Bool

/-- The partner that `dot3ad_initialize_port` and a failed link leave. -/
def nullPartner (key : UInt16) : PortInfo := ⟨1, 0xFF, Bytes.zero 6, 0xFFFF, key, {}⟩

def dot3adInitializePort (index : UInt16) (basemac : Bytes 6) (actor_system_priority key : UInt16)
    (enabled lacp_fast linkup : Bool) : TrunkPort where
  port :=
    { actor := ⟨index, index, basemac, actor_system_priority, key,
        { aggregation := true, lacp_activity := enabled, lacp_timeout := lacp_fast }⟩
      is_enabled := linkup
      partner_admin := nullPartner 1
      partner_oper := nullPartner 0
      ntt := false
      vars := ⟨true, enabled, false, false, false⟩
      rx_state := .dummy
      rx_timer := 0
      periodic_state := .dummy
      periodic_timer := 0 }
  in_trunk := false

/-- `dot3ad_port_selection_logic` for one port. -/
def dot3adPortSelectionLogic (attach : Option Bool) (t : TrunkPort) : TrunkPort :=
  if t.port.vars.lacpEnabled = false then t
  else
    let select := t.port.vars.selected
    let p := if select then { t.port with actor.state.synchronization := true } else t.port
    let leaves := t.in_trunk && !p.partner_oper.state.synchronization
    let p :=
      if leaves then
        { p with
          ntt := true
          actor.state := { p.actor.state with
            synchronization := false, collecting := false, distributing := false
            aggregation := true, lacp_activity := true } }
      else p
    let in_trunk := t.in_trunk && !leaves
    if p.actor.state.defaulted then
      ⟨{ p with actor.state := { p.actor.state with
          synchronization := false, collecting := false, distributing := false } }, in_trunk⟩
    else if in_trunk then ⟨p, true⟩
    else
      match p.partner_oper.state.synchronization, attach with
      | true, some raised =>
        ⟨{ p with
          actor.state := { p.actor.state with
            collecting := true, distributing := true, aggregation := true, synchronization := true,
            lacp_activity := true }
          vars.lacpEnabled := true, vars.selected := true
          rx_timer := p.rx_timer + raised.toNat }, true⟩
      | _, _ =>
        if select then ⟨p, false⟩
        else
          ⟨{ p with
            ntt := true, vars.selected := true
            actor.state := { p.actor.state with
              synchronization := true, collecting := false, distributing := false } }, false⟩

/-- A turn of the three machines in `dot3ad_state_machine_handler`, which ends the restart. -/
def TrunkPort.tick (attach : Option Bool) (t : TrunkPort) : TrunkPort :=
  { dot3adPortSelectionLogic attach
      ⟨dot3adPeriodicMachine (dot3adRxMachine none t.port), t.in_trunk⟩ with
    port.vars.portBegin := false }

def TrunkPort.receive (lacpdu : Lacpdu) (t : TrunkPort) : TrunkPort :=
  ⟨dot3adRxMachine (some lacpdu) t.port, t.in_trunk⟩

/-- `dot3ad_handle_link_change`, with the key of the port's duplex and speed. -/
def TrunkPort.link (up : Bool) (key : UInt16) (t : TrunkPort) : TrunkPort :=
  if up then
    { t with
      port.is_enabled := true, port.actor.key := key, port.actor.state.lacp_timeout := false
      port.vars.portBegin := true }
  else
    { t with
      port.is_enabled := false, port.actor.key := key
      port.actor.state := { aggregation := true, lacp_activity := true }
      port.partner_admin := nullPartner 1, port.partner_oper := nullPartner 0
      port.vars.selected := false, port.vars.portBegin := true }

/-- The LACPDU has matching and synchronised contents and comes from another system. -/
def Fits (lacpdu : Lacpdu) (p : LacpPort) : Prop :=
  Matches lacpdu p ∧ lacpdu.actor.state.synchronization = true ∧
    lacpdu.actor.system ≠ p.actor.system

/-- Another member leaves the trunk in `dynamic_aggregator_leave`; the last member follows it. -/
def TrunkPort.left (num_of_ports : ℕ) (t : TrunkPort) : TrunkPort :=
  if t.in_trunk ∧ num_of_ports - 1 = 1 then
    ⟨{ t.port with
      ntt := true
      actor.state := { t.port.actor.state with
        synchronization := false, collecting := false, distributing := false, aggregation := true,
        lacp_activity := true } }, false⟩
  else t

def TrunkPort.ticks (attach : ℕ → Option Bool) (t : TrunkPort) : ℕ → TrunkPort
  | 0 => t
  | k + 1 => (t.ticks attach k).tick (attach k)

/-- A tick, an LACPDU, a change of the link, the leave of another member, or a turn of the transmit
machine that sends. -/
inductive PortEvent
  | tick (attach : Option Bool)
  | pdu (lacpdu : Lacpdu)
  | link (up : Bool) (key : UInt16)
  | left (num_of_ports : ℕ)
  | tx

def PortEvent.run (t : TrunkPort) : PortEvent → TrunkPort
  | .tick attach => t.tick attach
  | .pdu lacpdu => t.receive lacpdu
  | .link up key => t.link up key
  | .left num_of_ports => t.left num_of_ports
  | .tx => { t with port.ntt := false }

def PortEvent.isTick : PortEvent → Bool
  | .tick _ => true
  | _ => false

/-- The port is in the trunk all the time, as long as its link does not change, the LACPDUs fit,
fewer than `n` ticks are between them, and the trunk keeps two members. -/
def NeverRemoved (n : ℕ) : ℕ → TrunkPort → List PortEvent → Prop
  | _, t, [] => t.in_trunk = true
  | since, t, .tick attach :: l =>
    t.in_trunk = true ∧ (since + 1 < n → NeverRemoved n (since + 1) (t.tick attach) l)
  | _, t, .pdu lacpdu :: l =>
    t.in_trunk = true ∧ (Fits lacpdu t.port → NeverRemoved n 0 (t.receive lacpdu) l)
  | _, t, .link _ _ :: _ => t.in_trunk = true
  | since, t, .left num_of_ports :: l =>
    t.in_trunk = true ∧ (num_of_ports ≠ 2 → NeverRemoved n since (t.left num_of_ports) l)
  | since, t, .tx :: l => t.in_trunk = true ∧ NeverRemoved n since (PortEvent.tx.run t) l

/-- Every tick finds the periodic machine active and leaves `ntt` clear. -/
def Quiet : TrunkPort → List PortEvent → Prop
  | _, [] => True
  | t, e :: l =>
    (e.isTick = true → PeriodicActive (dot3adRxMachine none t.port) ∧ (e.run t).port.ntt = false) ∧
      Quiet (e.run t) l

/-! ## The receive timer -/

/-- A member of a trunk that is enabled, also for LACP, and not to be restarted. -/
structure TrunkPort.Member (t : TrunkPort) : Prop where
  in_trunk : t.in_trunk = true
  enabled : t.port.is_enabled = true
  portBegin : t.port.vars.portBegin = false
  lacpEnabled : t.port.vars.lacpEnabled = true

/-- A member port whose partner is synchronised, with its receive timer. -/
structure Steady (short : Bool) (n : ℕ) (t : TrunkPort) : Prop extends t.Member where
  current : t.port.rx_state = .current
  matched : t.port.vars.matched = true
  defaulted : t.port.actor.state.defaulted = false
  synchronization : t.port.partner_oper.state.synchronization = true
  timeout : t.port.actor.state.lacp_timeout = short
  timer : t.port.rx_timer = n

/-- A port that has left the trunk and waits for a last LACPDU. -/
structure Expiring (n : ℕ) (t : TrunkPort) : Prop where
  in_trunk : t.in_trunk = false
  enabled : t.port.is_enabled = true
  portBegin : t.port.vars.portBegin = false
  expired : t.port.rx_state = .expired
  synchronization : t.port.partner_oper.state.synchronization = false
  timer : t.port.rx_timer = n

section

variable {t : TrunkPort} {p : LacpPort} {lacpdu : Lacpdu} {attach : Option Bool} {short : Bool}
  {n : ℕ}

theorem tick_frame (attach : Option Bool) (t : TrunkPort) :
    ∃ ntt state timer, t.tick attach =
      { dot3adPortSelectionLogic attach
          ⟨{ dot3adRxMachine none t.port with
            ntt := ntt, periodic_state := state, periodic_timer := timer }, t.in_trunk⟩ with
        port.vars.portBegin := false } := by
  unfold TrunkPort.tick dot3adPeriodicMachine
  dsimp only
  split
  · exact ⟨_, _, _, rfl⟩
  · split <;> exact ⟨_, _, _, rfl⟩

theorem rxMachine_count (he : p.is_enabled = true) (hb : p.vars.portBegin = false)
    (hsa : p.rx_state = .current ∨ p.rx_state = .expired) (ht : p.rx_timer ≠ 1) :
    dot3adRxMachine none p = { p with rx_timer := p.rx_timer - 1 } := by
  have hn : rxNext false p = (p.rx_state, p.rx_timer - 1) := by
    unfold rxNext
    rcases hsa with hsa | hsa <;> simp [he, hb, hsa, ht]
  simp [dot3adRxMachine, hn]

theorem Steady.tick (h : Steady short n t) (hn : 1 < n) : Steady short (n - 1) (t.tick attach) := by
  obtain ⟨⟨htk, he, hb, hla⟩, hc, hma, hd, hsy, hto, htm⟩ := h
  have hr := rxMachine_count he hb (.inl hc) (by omega)
  obtain ⟨ntt, state, timer, ht⟩ := tick_frame attach t
  rw [ht, hr]
  unfold dot3adPortSelectionLogic
  cases hse : t.port.vars.selected <;> refine ⟨⟨?_, ?_, ?_, ?_⟩, ?_, ?_, ?_, ?_, ?_, ?_⟩ <;> simp [*]

/-- The port whose timer runs out leaves the trunk in the same tick. -/
theorem Steady.tick_last (h : Steady short 1 t) : Expiring 3 (t.tick attach) := by
  obtain ⟨⟨htk, he, hb, hla⟩, hc, hma, hd, hsy, hto, htm⟩ := h
  have hn : rxNext false t.port = (.expired, 0) := by simp [rxNext, *]
  have hr : dot3adRxMachine none t.port = { t.port with
      rx_state := .expired, rx_timer := 3
      partner_oper.state.synchronization := false, partner_oper.state.lacp_timeout := true
      vars.matched := false, actor.state.expired := true } := by
    simp [dot3adRxMachine, hn, rxActions, hc, currentWhile]
  obtain ⟨ntt, state, timer, ht⟩ := tick_frame attach t
  rw [ht, hr]
  unfold dot3adPortSelectionLogic
  cases hse : t.port.vars.selected <;> constructor <;> simp [*]

theorem Expiring.tick (h : Expiring n t) (hn : 1 < n) : Expiring (n - 1) (t.tick attach) := by
  obtain ⟨htk, he, hb, hex, hsy, htm⟩ := h
  have hr := rxMachine_count he hb (.inr hex) (by omega)
  obtain ⟨ntt, state, timer, ht⟩ := tick_frame attach t
  rw [ht, hr]
  unfold dot3adPortSelectionLogic
  cases hla : t.port.vars.lacpEnabled <;> cases hse : t.port.vars.selected <;>
    cases hd : t.port.actor.state.defaulted <;> constructor <;> simp [*]

theorem selection_rx_state (attach : Option Bool) (t : TrunkPort) :
    (dot3adPortSelectionLogic attach t).port.rx_state = t.port.rx_state := by
  unfold dot3adPortSelectionLogic
  grind

theorem Expiring.tick_last (h : Expiring 1 t) : (t.tick attach).port.rx_state = .defaulted := by
  obtain ⟨htk, hen, hb, he, hsy, htm⟩ := h
  have hn : rxNext false t.port = (.defaulted, 0) := by simp [rxNext, *]
  have hr : (dot3adRxMachine none t.port).rx_state = .defaulted := by
    simp only [dot3adRxMachine, Option.isSome_none, hn, rxActions, he]
    grind [recordDefault]
  obtain ⟨ntt, state, timer, ht⟩ := tick_frame attach t
  rw [ht, selection_rx_state, hr]

theorem steady_receive (hm : t.Member) (hc : t.port.rx_state = .current)
    (hma : t.port.vars.matched = true) (hf : Fits lacpdu t.port) :
    Steady t.port.actor.state.lacp_timeout (currentWhile t.port.actor.state.lacp_timeout)
      (t.receive lacpdu) := by
  unfold TrunkPort.receive
  obtain ⟨ht, he, hb, hla⟩ := hm
  rw [dot3adRxMachine_of_receiving ⟨he, hb, .inr (.inr hc)⟩ hf.2.2]
  unfold chooseMatched recordPdu updateNtt updateSelected
  have hsy := hf.2.1
  refine ⟨⟨ht, ?_, ?_, ?_⟩, ?_, ?_, ?_, ?_, ?_, ?_⟩ <;> grind

theorem Steady.receive (h : Steady short n t) (hf : Fits lacpdu t.port) :
    Steady short (currentWhile short) (t.receive lacpdu) := by
  rw [← h.timeout]
  exact steady_receive h.toMember h.current h.matched hf

theorem Steady.ticks (h : Steady short n t) (attach : ℕ → Option Bool) :
    ∀ k, k < n → Steady short (n - k) (t.ticks attach k)
  | 0, _ => h
  | k + 1, hk => by
    have ih := h.ticks attach k (by omega)
    have hst : Steady short (n - k - 1) (t.ticks attach (k + 1)) := ih.tick (by omega)
    rwa [Nat.sub_sub] at hst

/-- A member whose partner falls silent leaves the trunk when its timer runs out. -/
theorem Steady.silent (h : Steady short n t) (hn : 0 < n) (attach : ℕ → Option Bool) :
    (∀ k < n, (t.ticks attach k).in_trunk = true) ∧ (t.ticks attach n).in_trunk = false ∧
      (∀ k < 3, (t.ticks attach (n + k)).port.rx_state = .expired) ∧
      (t.ticks attach (n + 3)).port.rx_state = .defaulted := by
  have hlast : Steady short 1 (t.ticks attach (n - 1)) := by
    have hk := h.ticks attach (n - 1) (by omega)
    rwa [Nat.sub_sub_self hn] at hk
  have hout : Expiring 3 (t.ticks attach n) := by
    have hstep : t.ticks attach n = (t.ticks attach (n - 1)).tick (attach (n - 1)) := by
      conv_lhs => rw [← Nat.sub_add_cancel hn]
      rfl
    rw [hstep]
    exact hlast.tick_last
  have hone : Expiring 2 (t.ticks attach (n + 1)) := hout.tick (by decide)
  have htwo : Expiring 1 (t.ticks attach (n + 2)) := hone.tick (by decide)
  refine ⟨fun k hk => (h.ticks attach k hk).in_trunk, hout.in_trunk, fun k hk => ?_, htwo.tick_last⟩
  interval_cases k
  exacts [hout.expired, hone.expired, htwo.expired]

theorem currentWhile_pos (short : Bool) : 0 < currentWhile short := by cases short <;> decide

/-- A member that hears from its partner in time stays in the trunk. -/
theorem Steady.neverRemoved (l : List PortEvent) : ∀ {t : TrunkPort} {since : ℕ},
    Steady short (currentWhile short - since) t → since < currentWhile short →
      NeverRemoved (currentWhile short) since t l := by
  induction l with
  | nil => exact fun h _ => h.in_trunk
  | cons e l ih =>
    intro t since h hsi
    cases e with
    | tick attach =>
      refine ⟨h.in_trunk, fun hlt => ih ?_ hlt⟩
      simpa [Nat.sub_sub] using h.tick (by omega)
    | pdu lacpdu =>
      exact ⟨h.in_trunk, fun hf => ih (h.receive hf) (currentWhile_pos short)⟩
    | link => exact h.in_trunk
    | left num_of_ports =>
      refine ⟨h.in_trunk, fun hne => ?_⟩
      have hlf : t.left num_of_ports = t := if_neg (by omega)
      rw [hlf]
      exact ih h hsi
    | tx => exact ⟨h.in_trunk, ih ⟨⟨h.1.1, h.1.2, h.1.3, h.1.4⟩, h.2, h.3, h.4, h.5, h.6, h.7⟩ hsi⟩

end

/-! ## The periodic timer -/

/-- The state and the timer of the periodic machine. -/
def LacpPort.periodic : PeriodicState × ℕ := (p.periodic_state, p.periodic_timer)

open LacpPort

/-- The timer of the periodic machine in the states in which a tick leaves it; before the first
tick, the port is to be restarted. -/
def PeriodicOk : Prop :=
  match p.periodic_state with
  | .dummy => p.vars.portBegin = true ∧ p.periodic_timer = 0
  | .noPeriodic => p.periodic_timer = 0
  | .fastPeriodic => p.periodic_timer = 1
  | .slowPeriodic => 1 ≤ p.periodic_timer ∧ p.periodic_timer ≤ 27
  | .periodicTx => False

/-- The ticks that may go by before one sets `ntt`. -/
def quietRank : PeriodicState × ℕ → ℕ
  | (.noPeriodic, _) => 28
  | (.fastPeriodic, _) => 27
  | (_, timer) => timer - 1

open PortEvent

section

variable {t : TrunkPort} {p : LacpPort}

theorem periodicMachine_step (h : PeriodicOk p) : let q := dot3adPeriodicMachine p
    (∀ q' : LacpPort, q'.periodic = q.periodic → PeriodicOk q') ∧
      (PeriodicActive p → q.ntt = false → quietRank q.periodic < quietRank p.periodic) := by
  unfold periodic dot3adPeriodicMachine periodicNext periodicLoad PeriodicActive PeriodicOk at *
  cases hsa : p.periodic_state <;> simp only [hsa] at h <;> grind [quietRank]

theorem rxMachine_periodic (lacpdu : Option Lacpdu) (p : LacpPort) :
    let q := dot3adRxMachine lacpdu p
    q.periodic = p.periodic ∧ q.vars.portBegin = p.vars.portBegin := by
  unfold periodic dot3adRxMachine rxActions
  grind [recordDefault, chooseMatched, recordPdu, updateNtt, updateSelected]

theorem selection_periodic (attach : Option Bool) (t : TrunkPort) :
    let u := (dot3adPortSelectionLogic attach t).port
    u.periodic = t.port.periodic ∧ (u.ntt = false → t.port.ntt = false) := by
  unfold periodic dot3adPortSelectionLogic
  grind

theorem PeriodicOk.congr (h : PeriodicOk p) {q : LacpPort} (hq : q.periodic = p.periodic)
    (hb : p.vars.portBegin = true → q.vars.portBegin = true) : PeriodicOk q := by
  unfold periodic PeriodicOk at *
  grind

theorem event_periodic (e : PortEvent) (h : PeriodicOk t.port) : let u := (e.run t).port
    PeriodicOk u ∧ (e.isTick = false → quietRank u.periodic = quietRank t.port.periodic) ∧
      (e.isTick = true → PeriodicActive (dot3adRxMachine none t.port) → u.ntt = false →
        quietRank u.periodic < quietRank t.port.periodic) := by
  cases e with
  | tick attach =>
    obtain ⟨hr, hb⟩ := rxMachine_periodic none t.port
    obtain ⟨hse, hn⟩ := selection_periodic attach
      ⟨dot3adPeriodicMachine (dot3adRxMachine none t.port), t.in_trunk⟩
    obtain ⟨hok, hlt⟩ := periodicMachine_step (h.congr hr hb.trans)
    refine ⟨hok _ hse, fun ht => Bool.noConfusion ht, fun _ ha hc => ?_⟩
    rw [← hr]
    exact (congrArg quietRank hse).trans_lt (hlt ha (hn hc))
  | pdu lacpdu =>
    obtain ⟨hr, hb⟩ := rxMachine_periodic (some lacpdu) t.port
    exact ⟨h.congr hr hb.trans, fun _ => congrArg quietRank hr, fun ht => Bool.noConfusion ht⟩
  | link up key =>
    have hl : (t.link up key).port.periodic = t.port.periodic := by cases up <;> rfl
    have hb : (t.link up key).port.vars.portBegin = true := by cases up <;> rfl
    exact ⟨h.congr hl fun _ => hb, fun _ => congrArg quietRank hl, fun ht => Bool.noConfusion ht⟩
  | left num_of_ports =>
    have hl : (t.left num_of_ports).port.periodic = t.port.periodic ∧
        (t.left num_of_ports).port.vars = t.port.vars := by
      unfold TrunkPort.left
      split <;> exact ⟨rfl, rfl⟩
    exact ⟨h.congr hl.1 (hl.2 ▸ id), fun _ => congrArg quietRank hl.1,
      fun ht => Bool.noConfusion ht⟩
  | tx => exact ⟨h, fun _ => rfl, fun ht => Bool.noConfusion ht⟩

theorem quiet_ticks_le (l : List PortEvent) : ∀ {t : TrunkPort},
    PeriodicOk t.port → Quiet t l → l.countP isTick ≤ quietRank t.port.periodic := by
  induction l with
  | nil => simp
  | cons e l ih =>
    intro t h hq
    obtain ⟨hok, hkt, hls⟩ := event_periodic e h
    have hl := ih hok hq.2
    cases ht : e.isTick with
    | false => simpa [ht, hkt ht] using hl
    | true =>
      have hlt := hls ht (hq.1 ht).1 (hq.1 ht).2
      simp only [List.countP_cons, ht, if_true]
      omega

theorem quietRank_le (h : PeriodicOk p) : quietRank p.periodic ≤ 28 := by
  unfold PeriodicOk periodic at *
  cases hsa : p.periodic_state <;> simp only [hsa, quietRank] at h ⊢ <;> omega

end

/-! ## The ports that are members -/

/-- A port that has a synchronised partner only in `CURRENT` and matched. -/
@[mk_iff] structure Synced (p : LacpPort) : Prop where
  moved : p.vars.moved = false
  state : p.rx_state ≠ .rxInitialize
  admin : p.partner_admin.state.synchronization = false
  synced : p.partner_oper.state.synchronization = true →
    p.is_enabled = true ∧ p.rx_state = .current ∧ p.vars.matched = true

/-- The members of a trunk are in `CURRENT` and matched, unless LACP is disabled on them or they are
to be restarted. -/
structure Settled (t : TrunkPort) : Prop extends Synced t.port where
  member : t.in_trunk = true → t.port.vars.lacpEnabled = true → t.port.vars.portBegin = false →
    t.port.is_enabled = true → t.port.rx_state = .current ∧ t.port.vars.matched = true
  periodic : PeriodicOk t.port

section

variable {t : TrunkPort} {p : LacpPort}

theorem rxNext_current (received : Bool) (hm : p.vars.moved = false) :
    ((rxNext received p).1 = .current → p.is_enabled = true) ∧
      (p.vars.portBegin = false → p.rx_state ≠ .rxInitialize →
        (rxNext received p).1 ≠ .rxInitialize) := by
  unfold rxNext
  grind

theorem rxNext_of_current (received : Bool) (he : p.is_enabled = true)
    (hc : p.rx_state = .current) :
    let state := (rxNext received p).1
    state = .rxInitialize ∨ state = .current ∨ received = false ∧ state = .expired := by
  unfold rxNext
  grind

theorem Synced.rx (h : Synced p) (lacpdu : Option Lacpdu) : Synced (dot3adRxMachine lacpdu p) := by
  obtain ⟨hm, hst, ha, hs⟩ := h
  have hc := rxNext_current lacpdu.isSome hm
  have hof := fun hsy => rxNext_of_current lacpdu.isSome (hs hsy).1 (hs hsy).2.1
  unfold dot3adRxMachine rxActions
  generalize rxNext lacpdu.isSome p = next at *
  obtain ⟨state, timer⟩ := next
  rw [synced_iff]
  cases state with
  | current =>
    cases lacpdu with
    | none => grind
    | some lacpdu => grind [chooseMatched, recordPdu, updateNtt, updateSelected]
  | _ => cases lacpdu <;> grind [recordDefault]

/-- A member that receives an LACPDU stays in `CURRENT` and matched. -/
theorem Settled.receive (h : Settled t) (lacpdu : Lacpdu) :
    let q := dot3adRxMachine (some lacpdu) t.port
    t.in_trunk = true → q.vars.lacpEnabled = true → q.vars.portBegin = false →
      q.is_enabled = true → q.rx_state = .current ∧ q.vars.matched = true := by
  have hmember := h.member
  have hn := (rxNext_current true h.moved).2
  have hof := rxNext_of_current (p := t.port) true
  have hstate := h.state
  unfold dot3adRxMachine rxActions
  dsimp only [Option.isSome_some]
  generalize rxNext true t.port = next at *
  obtain ⟨state, timer⟩ := next
  cases state <;> grind [recordDefault, chooseMatched, recordPdu, updateNtt, updateSelected]

theorem selection_settled (attach : Option Bool) (t : TrunkPort) :
    let u := dot3adPortSelectionLogic attach t
    (Synced t.port → Synced { u.port with vars.portBegin := false }) ∧
      u.port.rx_state = t.port.rx_state ∧ u.port.vars.matched = t.port.vars.matched ∧
      (u.in_trunk = true → u.port.vars.lacpEnabled = true →
        t.port.partner_oper.state.synchronization = true) := by
  refine ⟨fun h => ?_, ?_⟩
  · obtain ⟨hm, hst, ha, hs⟩ := h
    unfold dot3adPortSelectionLogic
    constructor <;> grind
  · unfold dot3adPortSelectionLogic
    grind

theorem Settled.event (h : Settled t) (e : PortEvent) : Settled (e.run t) := by
  have hp := (event_periodic e h.periodic).1
  cases e with
  | tick attach =>
    have hrx := h.toSynced.rx none
    obtain ⟨ntt, state, timer, ht⟩ := tick_frame attach t
    obtain ⟨hsy, hx, hm, hin⟩ := selection_settled attach
      ⟨{ dot3adRxMachine none t.port with
        ntt := ntt, periodic_state := state, periodic_timer := timer }, t.in_trunk⟩
    unfold PortEvent.run at *
    dsimp only at *
    rw [ht] at hp ⊢
    refine ⟨hsy ⟨hrx.moved, hrx.state, hrx.admin, hrx.synced⟩, fun htk hla _ _ => ?_, hp⟩
    rw [hx, hm]
    exact (hrx.synced (hin htk hla)).2
  | pdu lacpdu => exact ⟨h.toSynced.rx (some lacpdu), h.receive lacpdu, hp⟩
  | link up key =>
    cases up with
    | false =>
      exact ⟨⟨h.moved, h.state, rfl, fun hs => Bool.noConfusion hs⟩,
        fun _ _ hb => Bool.noConfusion hb, hp⟩
    | true =>
      exact ⟨⟨h.moved, h.state, h.admin, fun hs => ⟨rfl, (h.synced hs).2⟩⟩,
        fun _ _ hb => Bool.noConfusion hb, hp⟩
  | left num_of_ports =>
    unfold PortEvent.run TrunkPort.left at *
    dsimp only at *
    split at hp
    · rw [if_pos ‹_›]
      exact ⟨⟨h.moved, h.state, h.admin, h.synced⟩, fun hin => Bool.noConfusion hin, hp⟩
    · rwa [if_neg ‹_›]
  | tx => exact ⟨⟨h.moved, h.state, h.admin, h.synced⟩, h.member, hp⟩

theorem Settled.foldl (h : Settled t) (l : List PortEvent) : Settled (l.foldl run t) := by
  induction l generalizing t with
  | nil => exact h
  | cons e l ih => exact ih (h.event e)

end

/-- **Silent and live partners.** After any events, a member port that gets an LACPDU with matching
and synchronised contents is in the trunk until the tick in which the time of
`AD_CURRENT_WHILE_TIMER` is over, out of it with that tick, and in `DEFAULTED` three ticks later. As
long as such LACPDUs arrive in time, and the trunk has two members, it is never removed. And the
ticks that find the port active and leave `ntt` clear are fewer than 30 in a row. -/
theorem member_timers (index : UInt16) (basemac : Bytes 6) (actor_system_priority key : UInt16)
    (enabled lacp_fast linkup : Bool) (before : List PortEvent) :
    let t := before.foldl run
      (dot3adInitializePort index basemac actor_system_priority key enabled lacp_fast linkup)
    let n := currentWhile t.port.actor.state.lacp_timeout
    (∀ lacpdu, t.Member → Fits lacpdu t.port →
        let r := t.receive lacpdu
        (∀ attach : ℕ → Option Bool,
            (∀ k < n, (r.ticks attach k).in_trunk = true) ∧ (r.ticks attach n).in_trunk = false ∧
              (∀ k < 3, (r.ticks attach (n + k)).port.rx_state = .expired) ∧
              (r.ticks attach (n + 3)).port.rx_state = .defaulted) ∧
          ∀ l, NeverRemoved n 0 r l) ∧
      ∀ l, Quiet t l → l.countP isTick < 30 := by
  intro t n
  have hstart : Settled
      (dot3adInitializePort index basemac actor_system_priority key enabled lacp_fast linkup) :=
    ⟨⟨rfl, fun hs => RxState.noConfusion hs, rfl, fun hs => Bool.noConfusion hs⟩,
      fun hin => Bool.noConfusion hin, rfl, rfl⟩
  have hsettled : Settled t := hstart.foldl before
  refine ⟨fun lacpdu hm hfits => ?_, fun l hquiet => ?_⟩
  · obtain ⟨hcurrent, hmatched⟩ :=
      hsettled.member hm.in_trunk hm.lacpEnabled hm.portBegin hm.enabled
    have hsteady : Steady t.port.actor.state.lacp_timeout n (t.receive lacpdu) :=
      steady_receive hm hcurrent hmatched hfits
    have hpos := currentWhile_pos t.port.actor.state.lacp_timeout
    exact ⟨hsteady.silent hpos, fun l => Steady.neverRemoved l hsteady hpos⟩
  · have hle := quiet_ticks_le l hsettled.periodic hquiet
    have hbound := quietRank_le hsettled.periodic
    omega

/-- The LACPDU of a partner of port 1 of a system. -/
def samplePdu : Lacpdu :=
  ⟨samplePartner, ⟨1, 1, Bytes.six 0 1 2 3 4 5, 32768, 7, { aggregation := true }⟩⟩

/-- A port that starts, hears its partner twice, and joins a trunk. -/
def sampleRun : List PortEvent :=
  [.tick none, .tick none, .pdu samplePdu, .pdu samplePdu, .tick (some false)]

def sampleMember : TrunkPort :=
  sampleRun.foldl run
    (dot3adInitializePort 1 (Bytes.six 0 1 2 3 4 5) 32768 7 true false true)

/-- A member that falls silent after an LACPDU leaves the trunk. -/
theorem member_timers_silent :
    ((sampleMember.receive samplePdu).ticks (fun _ => none) 90).in_trunk = false :=
  (((member_timers 1 (Bytes.six 0 1 2 3 4 5) 32768 7 true false true sampleRun).1 samplePdu
    ⟨by decide, by decide, by decide, by decide⟩
    ⟨.inl (by decide), by decide, by decide⟩).1 fun _ => none).2.1

/-- A member with a live partner is removed together with the only other member of the trunk. -/
theorem member_removed :
    sampleMember.in_trunk = true ∧ sampleMember.port.is_enabled = true ∧
      Fits samplePdu sampleMember.port ∧
      ((sampleMember.receive samplePdu).left 2).in_trunk = false := by
  refine ⟨by decide, by decide, ⟨.inl (by decide), by decide, by decide⟩, by decide⟩

end Chanos.Lacp

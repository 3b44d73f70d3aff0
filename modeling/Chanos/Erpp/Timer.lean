import Chanos.Erpp.Packet
import Chanos.Lib.Countdown

/-!
# The timer

`erpp_domain_timer_handler` runs once a second for each domain (`erpp_timer.c`). Each enabled ring
takes its turn with the countdowns: a master with those to the next hello and to the failure of the
ring, an edge node with the first, an assistant edge node with the one to the fault.
-/

namespace Chanos.Erpp

open Lib List Function ErppRun

def ErppRing.failed (r : ErppRing) : ErppRing :=
  (r.withPorts r.node.port0.erpp_port_status .forwarding).withStatus nodeFail

open ErppRing

variable (host : Daemon) (k : Fin 4) (s : ErppRun)

def timerHello : ErppRun :=
  if s.entry.timer_count0 = 0 then
    let entry := { s.entry with timer_count0 := s.entry.hello_timer, packet_ring := (k : ℤ) + 1 }
    { s with entry := entry }.erppTxTypePacket host (k + 1) helloPacket
      (s.entry.ring k).node.port0.netif_index
  else s

def timerFail : ErppRun :=
  if s.entry.timer_count1 = 0 then
    let entry := { s.entry with
      timer_count1 := s.entry.fail_timer, flush_flag := true, packet_ring := (k : ℤ) + 1
      ring := update s.entry.ring k (s.entry.ring k).failed }
    { s with entry := entry }.erppTxTypePacket host (k + 1) commonFlushPacket
      (s.entry.ring k).node.port0.netif_index
  else s

def timerMaster : ErppRun :=
  let s := timerFail host k (timerHello host k s)
  { s with entry := { s.entry with
      timer_count0 := s.entry.timer_count0 - 1, timer_count1 := s.entry.timer_count1 - 1 } }

def timerEdge : ErppRun :=
  let s :=
    if s.entry.timer_count0 = 0 then
      let entry := { s.entry with timer_count0 := s.entry.hello_timer, packet_ring := (k : ℤ) }
      let s := { s with entry := entry }.touch (k + 1) 0
      let s := s.erppTxTypePacket host (k + 1) edgeHelloPacket (entry.ring 0).node.port0.netif_index
      s.erppTxTypePacket host (k + 1) edgeHelloPacket (entry.ring 0).node.port1.netif_index
    else s
  { s with entry := { s.entry with timer_count0 := s.entry.timer_count0 - 1 } }

def timerAssistant : ErppRun :=
  let s :=
    if s.entry.timer_count2 = 0 then
      let entry := { s.entry with
        packet_ring := (k : ℤ) + 1
        ring := update s.entry.ring k ((s.entry.ring k).withStatus erppLinkFail) }
      { s with entry := entry }.erppTxTypePacket host (k + 1) faultPacket
        (s.entry.ring k).node.port0.netif_index
    else s
  { s with entry := { s.entry with timer_count2 := s.entry.timer_count2 - 1 } }

def timerRing (k : Fin 4) : ErppRun :=
  let r := s.entry.ring k
  let s := s.touch (k + 1) k
  if r.is_enable = true then
    match r.node.erpp_node_role with
    | .master => timerMaster host k s
    | .edge => timerEdge host k s
    | .assistantEdge => timerAssistant host k s
    | .transmit | .other _ => s
  else s

def timerRings : List (Fin 4) := [0, 1, 2, 3]

variable (d : ErppDomain)

def erppDomainTimerHandler : ErppRun :=
  timerRings.foldl (timerRing host) (start d)

/-! ## What a turn does -/

namespace ErppRing

variable (r : ErppRing)

def ActiveMaster : Prop := r.is_enable = true ∧ r.IsMaster

instance : Decidable r.ActiveMaster := inferInstanceAs (Decidable (_ ∧ _))

def UsesHello : Prop :=
  r.is_enable = true ∧ (r.node.erpp_node_role = .master ∨ r.node.erpp_node_role = .edge)

instance : Decidable r.UsesHello := inferInstanceAs (Decidable (_ ∧ _))

def ticked (count1 count2 : ℤ) : ErppRing :=
  if r.ActiveMaster ∧ count1 = 0 then r.failed
  else if r.is_enable = true ∧ r.node.erpp_node_role = .assistantEdge ∧ count2 = 0 then
    r.withStatus erppLinkFail
  else r

structure SameConfig (r r' : ErppRing) : Prop where
  ring_id : r'.ring_id = r.ring_id
  level : r'.level = r.level
  is_enable : r'.is_enable = r.is_enable
  role : r'.node.erpp_node_role = r.node.erpp_node_role
  netif0 : r'.node.port0.netif_index = r.node.port0.netif_index
  netif1 : r'.node.port1.netif_index = r.node.port1.netif_index

variable {r} {r' r'' : ErppRing}

theorem SameConfig.refl (r : ErppRing) : SameConfig r r := ⟨rfl, rfl, rfl, rfl, rfl, rfl⟩

theorem SameConfig.trans (h : SameConfig r r') (h' : SameConfig r' r'') : SameConfig r r'' :=
  ⟨h'.ring_id.trans h.ring_id, h'.level.trans h.level, h'.is_enable.trans h.is_enable,
    h'.role.trans h.role, h'.netif0.trans h.netif0, h'.netif1.trans h.netif1⟩

theorem SameConfig.activeMaster_iff (h : SameConfig r r') : r'.ActiveMaster ↔ r.ActiveMaster := by
  unfold ActiveMaster IsMaster
  rw [h.is_enable, h.role]

theorem SameConfig.usesHello_iff (h : SameConfig r r') : r'.UsesHello ↔ r.UsesHello := by
  unfold UsesHello
  rw [h.is_enable, h.role]

theorem sameConfig_update {k : Fin 4} (ring : Fin 4 → ErppRing) {r : ErppRing} (h : (ring k).SameConfig r)
    (j : Fin 4) : (ring j).SameConfig (update ring k r j) := by
  by_cases hj : j = k
  · subst hj
    rwa [update_self]
  · rw [update_of_ne hj]
    exact .refl _

theorem sameConfig_ticked (count1 count2 : ℤ) : SameConfig r (r.ticked count1 count2) := by
  unfold ticked
  split_ifs <;> exact ⟨rfl, rfl, rfl, rfl, rfl, rfl⟩

end ErppRing

structure TimerTurn (k : Fin 4) (d d' : ErppDomain) : Prop where
  hello_timer : d'.hello_timer = d.hello_timer
  fail_timer : d'.fail_timer = d.fail_timer
  count0 : d'.timer_count0 =
    if (d.ring k).UsesHello then countdown d.hello_timer d.timer_count0 else d.timer_count0
  count1 : d'.timer_count1 =
    if (d.ring k).ActiveMaster then countdown d.fail_timer d.timer_count1 else d.timer_count1
  flush_flag : d'.flush_flag =
    (d.flush_flag || decide ((d.ring k).ActiveMaster ∧ d.timer_count1 = 0))
  ring : d'.ring =
    update d.ring k ((d.ring k).ticked d.timer_count1 d.timer_count2)

theorem TimerTurn.of_idle {d : ErppDomain} (hu : ¬ (d.ring k).UsesHello)
    (hr : (d.ring k).ticked d.timer_count1 d.timer_count2 = d.ring k) : TimerTurn k d d := by
  have hms : ¬(d.ring k).ActiveMaster := fun h => hu ⟨h.1, .inl h.2⟩
  exact ⟨rfl, rfl, (if_neg hu).symm, (if_neg hms).symm, by simp [hms],
    by rw [hr, update_eq_self]⟩

theorem timerRing_spec (k : Fin 4) : TimerTurn k s.entry (timerRing host s k).entry := by
  unfold timerRing
  dsimp only
  cases he : (s.entry.ring k).is_enable with
  | false =>
    exact .of_idle k (fun h => by simp [h.1] at he)
      (by simp [ticked, ActiveMaster, he])
  | true =>
    rw [if_pos rfl]
    cases hr : (s.entry.ring k).node.erpp_node_role with
    | master =>
      have hms : (s.entry.ring k).ActiveMaster := ⟨he, hr⟩
      have hu : (s.entry.ring k).UsesHello := ⟨he, .inl hr⟩
      by_cases h0 : s.entry.timer_count0 = 0 <;> by_cases h1 : s.entry.timer_count1 = 0 <;>
        constructor <;>
        simp [timerMaster, timerHello, timerFail, countdown, ticked, h0, h1, hms, hu, hr]
    | edge =>
      have hms : ¬ (s.entry.ring k).ActiveMaster := by
        simp [ActiveMaster, IsMaster, hr]
      have hu : (s.entry.ring k).UsesHello := ⟨he, .inr hr⟩
      by_cases h0 : s.entry.timer_count0 = 0 <;> constructor <;>
        simp [timerEdge, countdown, ticked, h0, hms, hu, hr]
    | assistantEdge =>
      have hu : ¬ (s.entry.ring k).UsesHello := by simp [UsesHello, hr]
      have hms : ¬ (s.entry.ring k).ActiveMaster := fun h => hu ⟨h.1, .inl h.2⟩
      by_cases h2 : s.entry.timer_count2 = 0 <;> constructor <;>
        simp [timerAssistant, ticked, h2, hms, hu, he, hr]
    | transmit | other code =>
      exact .of_idle k (by simp [UsesHello, hr])
        (by simp [ticked, ActiveMaster, IsMaster, hr])

/-! ## What a second does -/

def ErppDomain.masters (l : List (Fin 4)) : ℕ :=
  l.countP fun j => decide (d.ring j).ActiveMaster

open ErppDomain

def ErppDomain.helloUsers (l : List (Fin 4)) : ℕ :=
  l.countP fun j => decide (d.ring j).UsesHello

section

variable {d d' : ErppDomain} (h : ∀ j, (d.ring j).SameConfig (d'.ring j)) (l : List (Fin 4))
include h

theorem masters_congr : d'.masters l = d.masters l :=
  countP_congr fun j _ => by simp only [decide_eq_true_eq, (h j).activeMaster_iff]

theorem helloUsers_congr : d'.helloUsers l = d.helloUsers l :=
  countP_congr fun j _ => by simp only [decide_eq_true_eq, (h j).usesHello_iff]

end

namespace TimerTurn

variable {k : Fin 4} {d d' : ErppDomain}

theorem sameConfig (h : TimerTurn k d d') (j : Fin 4) : (d.ring j).SameConfig (d'.ring j) := by
  rw [h.ring]
  exact sameConfig_update d.ring (sameConfig_ticked _ _) j

theorem iterate_count0 (h : TimerTurn k d d') (l : List (Fin 4)) :
    (countdown d'.hello_timer)^[d'.helloUsers l] d'.timer_count0 =
      (countdown d.hello_timer)^[d.helloUsers (k :: l)] d.timer_count0 := by
  rw [h.hello_timer, helloUsers_congr h.sameConfig, h.count0, helloUsers,
    helloUsers, countP_cons]
  by_cases hu : (d.ring k).UsesHello <;> simp [hu]

theorem iterate_count1 (h : TimerTurn k d d') (l : List (Fin 4)) :
    (countdown d'.fail_timer)^[d'.masters l] d'.timer_count1 =
      (countdown d.fail_timer)^[d.masters (k :: l)] d.timer_count1 := by
  rw [h.fail_timer, masters_congr h.sameConfig, h.count1, masters, masters,
    countP_cons]
  by_cases hms : (d.ring k).ActiveMaster <;> simp [hms]

end TimerTurn

/-- What the turns of some rings do to the countdowns of a domain and to the configuration of its
rings. -/
structure TimerTurns (l : List (Fin 4)) (d d' : ErppDomain) : Prop where
  hello_timer : d'.hello_timer = d.hello_timer
  fail_timer : d'.fail_timer = d.fail_timer
  count0 : d'.timer_count0 = (countdown d.hello_timer)^[d.helloUsers l] d.timer_count0
  count1 : d'.timer_count1 = (countdown d.fail_timer)^[d.masters l] d.timer_count1
  config : ∀ j, (d.ring j).SameConfig (d'.ring j)

theorem foldl_timerRing_spec (l : List (Fin 4)) (s : ErppRun) :
    TimerTurns l s.entry (l.foldl (timerRing host) s).entry := by
  induction l generalizing s with
  | nil => exact ⟨rfl, rfl, rfl, rfl, fun j => .refl _⟩
  | cons k l ih =>
    have ht := timerRing_spec host s k
    have hrs := ih (timerRing host s k)
    exact ⟨hrs.hello_timer.trans ht.hello_timer, hrs.fail_timer.trans ht.fail_timer,
      hrs.count0.trans (ht.iterate_count0 l), hrs.count1.trans (ht.iterate_count1 l),
      fun j => (ht.sameConfig j).trans (hrs.config j)⟩

theorem foldl_timerRing_ring_of_notMem {l : List (Fin 4)} {s : ErppRun} (hk : k ∉ l) :
    (l.foldl (timerRing host) s).entry.ring k = s.entry.ring k := by
  induction l generalizing s with
  | nil => rfl
  | cons j l ih =>
    rw [foldl_cons, ih fun h => hk (mem_cons_of_mem j h), (timerRing_spec host s j).ring]
    have hne : k ≠ j := fun h => hk (mem_cons.mpr (.inl h))
    exact update_of_ne hne _ _

variable (k : Fin 4)

def ringsBefore : List (Fin 4) := timerRings.take k

def ringsAfter : List (Fin 4) := timerRings.drop (k + 1)

theorem mem_timerRings : k ∈ timerRings := by decide +revert

theorem timerRings_split : timerRings = ringsBefore k ++ k :: ringsAfter k := by
  decide +revert

theorem notMem_ringsBefore : k ∉ ringsBefore k := by decide +revert

theorem notMem_ringsAfter : k ∉ ringsAfter k := by decide +revert

def ErppDomain.failCountAt : ℤ :=
  (countdown d.fail_timer)^[d.masters (ringsBefore k)] d.timer_count1

def ErppDomain.helloCountAt : ℤ :=
  (countdown d.hello_timer)^[d.helloUsers (ringsBefore k)] d.timer_count0

theorem timerHandler_ring :
    ∃ count2, (erppDomainTimerHandler host d).entry.ring k =
      (d.ring k).ticked (d.failCountAt k) count2 := by
  have hb := foldl_timerRing_spec host (ringsBefore k) (start d)
  have hr := foldl_timerRing_ring_of_notMem host k (s := start d) (notMem_ringsBefore k)
  unfold erppDomainTimerHandler
  rw [timerRings_split k, foldl_append, foldl_cons,
    foldl_timerRing_ring_of_notMem host k (notMem_ringsAfter k)]
  generalize (ringsBefore k).foldl (timerRing host) (start d) = s at hb hr ⊢
  refine ⟨s.entry.timer_count2, ?_⟩
  rw [(timerRing_spec host s k).ring, update_self, hr, hb.count1]
  rfl

end Chanos.Erpp

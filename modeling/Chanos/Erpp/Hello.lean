import Chanos.Erpp.Timer

/-!
# The countdowns of a master

A master sends a hello every `hello_timer` seconds, and takes its ring for failed when `fail_timer`
seconds have passed without one of its hellos coming back. The countdowns are fields of the domain,
and every ring that uses them takes them down once a second. So a ring is on time only when it is
first in line, and the number of the users and the timer are coprime (`masters_onTime_iff`).
-/

namespace Chanos.Erpp

open Lib List Function ErppRun Nat

variable (host : Daemon)

def hellosOf (k : Fin 4) (sent : List (ℕ × ErppPacket)) : ℕ :=
  sent.countP fun x => decide (x.2.erpp_type = helloPacket ∧ x.2.ring_id = (k : ℕ) + 1)

def ErppDomain.Numbered (d : ErppDomain) : Prop :=
  ∀ j, (d.ring j).is_enable = true → (d.ring j).ring_id = j + 1

theorem ErppDomain.Numbered.of_sameConfig {d d' : ErppDomain} (h : d.Numbered)
    (hc : ∀ j, (d.ring j).SameConfig (d'.ring j)) : d'.Numbered := by
  intro j he
  rw [(hc j).is_enable] at he
  rw [(hc j).ring_id]
  exact h j he

open ErppDomain

section

variable {host} {k j : Fin 4} {s : ErppRun}

theorem hellosOf_append (l : List (ℕ × ErppPacket)) (netif : ℕ) (pkt : ErppPacket) :
    hellosOf k (l ++ [(netif, pkt)]) =
      hellosOf k l + if pkt.erpp_type = helloPacket ∧ pkt.ring_id = (k : ℕ) + 1 then 1 else 0 := by
  unfold hellosOf
  rw [countP_append, countP_singleton]
  simp only [decide_eq_true_eq]

theorem hellosOf_txTypePacket_of_ne {id packetType netif : ℕ} (s : ErppRun)
    (h : packetType % 2 ^ 8 ≠ helloPacket) :
    hellosOf k (s.erppTxTypePacket host id packetType netif).sent = hellosOf k s.sent := by
  unfold erppTxTypePacket
  rw [hellosOf_append, if_neg fun hc => h hc.1]
  rfl

theorem hellosOf_timerHello (hid : (s.entry.ring j).ring_id = j + 1) :
    hellosOf k (timerHello host j s).sent =
      hellosOf k s.sent + if j = k ∧ s.entry.timer_count0 = 0 then 1 else 0 := by
  unfold timerHello
  by_cases hc : s.entry.timer_count0 = 0
  · rw [if_pos hc]
    dsimp only [erppTxTypePacket, touch]
    rw [hellosOf_append]
    have hr : (erppAssemblyPacket host
        { s.entry with timer_count0 := s.entry.hello_timer, packet_ring := (j : ℤ) + 1 }
        helloPacket).ring_id = (j : ℕ) + 1 := by
      have hi : (j : ℤ) + 1 - 1 = j := add_sub_cancel_right _ _
      dsimp only [erppAssemblyPacket]
      rw [hi, ringAt_val, hid]
      exact mod_eq_of_lt (by omega)
    rw [hr]
    simp [erppAssemblyPacket, helloPacket, hc, Fin.ext_iff]
  · rw [if_neg hc, if_neg fun h => hc h.2]
    rfl

theorem hellosOf_timerFail (s : ErppRun) :
    hellosOf k (timerFail host j s).sent = hellosOf k s.sent := by
  unfold timerFail
  split
  · exact hellosOf_txTypePacket_of_ne _ (by decide)
  · rfl

theorem hellosOf_timerRing (hn : s.entry.Numbered) :
    hellosOf k (timerRing host s j).sent = hellosOf k s.sent +
      if j = k ∧ (s.entry.ring k).ActiveMaster ∧ s.entry.timer_count0 = 0 then 1 else 0 := by
  have hno : ∀ s' : ErppRun, hellosOf k s'.sent = hellosOf k s.sent →
      ¬ (s.entry.ring j).ActiveMaster → hellosOf k s'.sent = hellosOf k s.sent +
        if j = k ∧ (s.entry.ring k).ActiveMaster ∧ s.entry.timer_count0 = 0 then 1 else 0 := by
    intro s' hse hms
    have hc : ¬ (j = k ∧ (s.entry.ring k).ActiveMaster ∧ s.entry.timer_count0 = 0) := by
      rintro ⟨rfl, ha, -⟩
      exact hms ha
    rw [hse, if_neg hc]
    rfl
  unfold timerRing
  dsimp only
  split
  swap
  · next hd => exact hno _ rfl fun h => hd h.1
  next he =>
  cases hr : (s.entry.ring j).node.erpp_node_role with
  | master =>
    have ha : (s.entry.ring j).ActiveMaster := ⟨he, hr⟩
    have hf : hellosOf k (timerHello host j (s.touch (j + 1) j)).sent = hellosOf k s.sent +
        if j = k ∧ s.entry.timer_count0 = 0 then 1 else 0 :=
      hellosOf_timerHello (hn j he)
    have hc : (j = k ∧ (s.entry.ring k).ActiveMaster ∧ s.entry.timer_count0 = 0) ↔
        (j = k ∧ s.entry.timer_count0 = 0) :=
      ⟨fun h => ⟨h.1, h.2.2⟩, fun h => ⟨h.1, h.1 ▸ ha, h.2⟩⟩
    simp only [hc]
    exact (hellosOf_timerFail _).trans hf
  | edge =>
    refine hno _ ?_ (by simp [ErppRing.ActiveMaster, ErppRing.IsMaster, hr])
    dsimp only [timerEdge]
    split
    · rw [hellosOf_txTypePacket_of_ne _ (by decide),
        hellosOf_txTypePacket_of_ne _ (by decide)]
      rfl
    · rfl
  | assistantEdge =>
    refine hno _ ?_ (by simp [ErppRing.ActiveMaster, ErppRing.IsMaster, hr])
    dsimp only [timerAssistant]
    split
    · exact hellosOf_txTypePacket_of_ne _ (by decide)
    · rfl
  | transmit | other code =>
    exact hno _ rfl (by simp [ErppRing.ActiveMaster, ErppRing.IsMaster, hr])

theorem hellosOf_foldl_timerRing {l : List (Fin 4)} (hk : k ∉ l) (hn : s.entry.Numbered) :
    hellosOf k (l.foldl (timerRing host) s).sent = hellosOf k s.sent := by
  induction l generalizing s with
  | nil => rfl
  | cons j l ih =>
    have hne : j ≠ k := fun h => hk (mem_cons.mpr (.inl h.symm))
    have ht := timerRing_spec host s j
    rw [foldl_cons, ih (fun h => hk (mem_cons_of_mem j h))
      (hn.of_sameConfig ht.sameConfig), hellosOf_timerRing hn,
      if_neg fun h => hne h.1]
    rfl

end

theorem hellosOf_timerHandler {d : ErppDomain} (hn : d.Numbered) (k : Fin 4) :
    hellosOf k (erppDomainTimerHandler host d).sent =
      if (d.ring k).ActiveMaster ∧ d.helloCountAt k = 0 then 1 else 0 := by
  have hb := foldl_timerRing_spec host (ringsBefore k) (start d)
  have hse : hellosOf k ((ringsBefore k).foldl (timerRing host) (start d)).sent = 0 :=
    hellosOf_foldl_timerRing (notMem_ringsBefore k) hn
  have hr := foldl_timerRing_ring_of_notMem host k (s := start d) (notMem_ringsBefore k)
  unfold erppDomainTimerHandler
  rw [timerRings_split k, foldl_append, foldl_cons]
  generalize (ringsBefore k).foldl (timerRing host) (start d) = s at hb hse hr ⊢
  have hs : s.entry.Numbered := hn.of_sameConfig hb.config
  have ht := timerRing_spec host s k
  rw [hellosOf_foldl_timerRing (notMem_ringsAfter k) (hs.of_sameConfig ht.sameConfig),
    hellosOf_timerRing hs, hse, hr, hb.count0, zero_add]
  simp only [true_and]
  rfl

section

variable {rx : ℕ} {pkt : ErppPacket} {d : ErppDomain} {k : Fin 4}

theorem rxDomain_hello_ignored (ht : pkt.erpp_type = helloPacket)
    (h : pkt.sys_mac = host.sys_mac → (d.ringAt host.stray (pkt.ring_id - 1)).is_enable ≠ true) :
    (rxDomain host rx pkt d).entry = d := by
  unfold rxDomain
  dsimp only
  split
  · next he =>
    have hma : pkt.sys_mac ≠ host.sys_mac := fun hma => h hma he
    unfold erppPacketRxHander erppPacketHelloProcess
    rw [if_pos ht, if_pos hma]
    rfl
  · rfl

theorem ErppRing.sameConfig_closeSecondary (r : ErppRing) : r.SameConfig r.closeSecondary := by
  unfold ErppRing.closeSecondary
  split <;> exact ⟨rfl, rfl, rfl, rfl, rfl, rfl⟩

theorem rxDomain_hello_own (ht : pkt.erpp_type = helloPacket) (hma : pkt.sys_mac = host.sys_mac)
    (hid : pkt.ring_id = k + 1) (he : (d.ring k).is_enable = true) :
    ∃ r flush i count1, (d.ring k).SameConfig r ∧
      ((d.ring k).node.erpp_node_status = nodeFail ∨ count1 = d.fail_timer) ∧
      (rxDomain host rx pkt d).entry = { d with
        flush_flag := flush, packet_ring := i, timer_count1 := count1
        ring := update d.ring k r } := by
  have hi : (pkt.ring_id : ℤ) - 1 = k := (id_sub_one_eq_iff _).mpr hid
  have hc := (d.ring k).sameConfig_closeSecondary
  unfold rxDomain
  dsimp only
  rw [hi, ringAt_val, if_pos he]
  unfold erppPacketRxHander erppPacketHelloProcess
  rw [if_pos ht, if_neg (not_not.mpr hma), hi]
  simp only [touch_entry, ringAt_val]
  have hr : (start d).entry = d := rfl
  rw [hr]
  split
  · next hf =>
    refine ⟨(d.ring k).closeSecondary.withStatus nodeComplete, true, pkt.ring_id, d.timer_count1,
      hc.trans ⟨rfl, rfl, rfl, rfl, rfl, rfl⟩, .inl hf, ?_⟩
    simp [ErppDomain.setRing, hr, ErppRun.setRing]
  · refine ⟨(d.ring k).closeSecondary, d.flush_flag, d.packet_ring, d.fail_timer, hc, .inr rfl, ?_⟩
    simp [ErppDomain.setRing, hr, ErppRun.setRing]

end

/-! ## Runs -/

/-- A domain, and what an observer has noted about a run so far, for each ring the seconds since its
own hello came back, and whether that one found the ring failed. -/
structure TimerRun where
  domain : ErppDomain
  ticks : ℕ
  quiet : Fin 4 → ℕ
  endedFailure : Fin 4 → Bool

open TimerRun

def TimerRun.start (d : ErppDomain) : TimerRun := ⟨d, 0, fun _ => 0, fun _ => false⟩

inductive TimerEvent
  | tick
  | hello (rx : ℕ) (pkt : ErppPacket)

def OwnHello (pkt : ErppPacket) (k : Fin 4) : Prop :=
  pkt.sys_mac = host.sys_mac ∧ pkt.ring_id = (k : ℕ) + 1

instance (pkt : ErppPacket) (k : Fin 4) : Decidable (OwnHello host pkt k) :=
  inferInstanceAs (Decidable (_ ∧ _))

def TimerRun.step (s : TimerRun) : TimerEvent → TimerRun
  | .tick =>
    { s with
      domain := (erppDomainTimerHandler host s.domain).entry, ticks := s.ticks + 1
      quiet := fun k => s.quiet k + 1 }
  | .hello rx pkt =>
    { s with
      domain := (rxDomain host rx { pkt with erpp_type := helloPacket } s.domain).entry
      quiet := fun k => if OwnHello host pkt k then 0 else s.quiet k
      endedFailure := fun k =>
        if OwnHello host pkt k then decide ((s.domain.ring k).node.erpp_node_status = nodeFail)
        else s.endedFailure k }

def TimerRun.Fair (s : TimerRun) : TimerEvent → Prop
  | .tick => ∀ k, (s.domain.ring k).ActiveMaster → s.endedFailure k = false
  | .hello _ pkt => pkt.sys_mac = host.sys_mac →
    (s.domain.ringAt host.stray (pkt.ring_id - 1)).is_enable = true →
      ∃ k, OwnHello host pkt k ∧ (s.domain.ring k).ActiveMaster

def TimerRun.FairRun (s : TimerRun) : List TimerEvent → Prop
  | [] => True
  | e :: es => s.Fair host e ∧ (s.step host e).FairRun es

def HelloDue (timer : ℤ) (ticks : ℕ) : Prop := 0 < ticks ∧ timer ∣ ticks ∨ timer ≤ 0

instance (timer : ℤ) (ticks : ℕ) : Decidable (HelloDue timer ticks) :=
  inferInstanceAs (Decidable (_ ∧ _ ∨ _))

def TimerRun.OnTime (s : TimerRun) : Prop :=
  ∀ k, (s.domain.ring k).ActiveMaster →
    (HelloDue s.domain.hello_timer s.ticks →
      hellosOf k (erppDomainTimerHandler host s.domain).sent = 1) ∧
    (¬ HelloDue s.domain.hello_timer s.ticks →
      hellosOf k (erppDomainTimerHandler host s.domain).sent = 0) ∧
    (((erppDomainTimerHandler host s.domain).entry.ring k).node.erpp_node_status = nodeFail ↔
      (s.domain.ring k).node.erpp_node_status = nodeFail ∨ s.domain.fail_timer ≤ s.quiet k)

/-- A domain whose timers have just been set: the countdowns are at their timers, the rings are
numbered and no master takes its ring for failed. -/
structure ErppDomain.Fresh (d : ErppDomain) : Prop where
  count0 : d.timer_count0 = d.hello_timer
  count1 : d.timer_count1 = d.fail_timer
  numbered : d.Numbered
  complete : ∀ k, (d.ring k).ActiveMaster → (d.ring k).node.erpp_node_status = nodeComplete

def ErppDomain.Serves (d : ErppDomain) : Prop :=
  ∀ k, (d.ring k).ActiveMaster →
    d.helloUsers (ringsBefore k) = 0 ∧ 1 ≤ d.hello_timer ∧
      IsCoprime (d.helloUsers timerRings : ℤ) d.hello_timer ∧ 0 ≤ d.fail_timer

section

variable {host} {d : ErppDomain} {s : TimerRun} {k : Fin 4} {pkt : ErppPacket}

/-- What is the same in all states of a run: the configuration and the timers; and the turns that
the hello countdown has taken. -/
structure TimerRun.Follows (d : ErppDomain) (s : TimerRun) : Prop where
  hello_timer : s.domain.hello_timer = d.hello_timer
  fail_timer : s.domain.fail_timer = d.fail_timer
  config : ∀ j, (d.ring j).SameConfig (s.domain.ring j)
  count0 : s.domain.timer_count0 =
    (countdown d.hello_timer)^[d.helloUsers timerRings * s.ticks] d.hello_timer

theorem TimerRun.follows_start (hfr : d.Fresh) : Follows d (.start d) :=
  ⟨rfl, rfl, fun _ => .refl _, hfr.count0⟩

theorem TimerRun.Follows.tick (h : s.Follows d) : (s.step host .tick).Follows d := by
  have ht := foldl_timerRing_spec host timerRings (ErppRun.start s.domain)
  have hc := fun j => (h.config j).trans (ht.config j)
  refine ⟨ht.hello_timer.trans h.hello_timer, ht.fail_timer.trans h.fail_timer, hc, ?_⟩
  have hu : s.domain.helloUsers timerRings = d.helloUsers timerRings :=
    helloUsers_congr h.config timerRings
  calc (erppDomainTimerHandler host s.domain).entry.timer_count0
      = (countdown s.domain.hello_timer)^[s.domain.helloUsers timerRings] s.domain.timer_count0 :=
        ht.count0
    _ = (countdown d.hello_timer)^[d.helloUsers timerRings]
          ((countdown d.hello_timer)^[d.helloUsers timerRings * s.ticks] d.hello_timer) := by
        rw [h.hello_timer, hu, h.count0]
    _ = (countdown d.hello_timer)^[d.helloUsers timerRings * (s.ticks + 1)] d.hello_timer := by
        rw [← iterate_add_apply, mul_succ, add_comm]

theorem TimerRun.fair_hello_cases {rx : ℕ} (h : s.Fair host (.hello rx pkt)) :
    ((s.step host (.hello rx pkt)).domain = s.domain ∧
      ∀ j, (s.domain.ring j).ActiveMaster → ¬ OwnHello host pkt j) ∨
    ∃ j, OwnHello host pkt j ∧ (s.domain.ring j).ActiveMaster ∧
      ∃ r flush i count1, (s.domain.ring j).SameConfig r ∧
        ((s.domain.ring j).node.erpp_node_status = nodeFail ∨ count1 = s.domain.fail_timer) ∧
        (s.step host (.hello rx pkt)).domain = { s.domain with
          flush_flag := flush, packet_ring := i, timer_count1 := count1
          ring := update s.domain.ring j r } := by
  by_cases hc : pkt.sys_mac = host.sys_mac →
      (s.domain.ringAt host.stray (pkt.ring_id - 1)).is_enable ≠ true
  · refine .inl ⟨rxDomain_hello_ignored host rfl hc, fun j hms ho => ?_⟩
    have hi : (pkt.ring_id : ℤ) - 1 = j := (id_sub_one_eq_iff _).mpr ho.2
    have hd := hc ho.1
    rw [hi, ringAt_val] at hd
    exact hd hms.1
  · obtain ⟨hma, he⟩ := Classical.not_imp.mp hc
    obtain ⟨j, ho, hms⟩ := h hma (not_not.mp he)
    exact .inr ⟨j, ho, hms, rxDomain_hello_own host rfl hma ho.2 hms.1⟩

theorem TimerRun.Follows.hello {rx : ℕ} (h : s.Follows d)
    (hfa : s.Fair host (.hello rx pkt)) : (s.step host (.hello rx pkt)).Follows d := by
  rcases fair_hello_cases hfa with ⟨hsm, -⟩ | ⟨j, -, -, r, flush, i, count1, hc, -, hd⟩
  · refine ⟨?_, ?_, ?_, ?_⟩ <;> rw [hsm]
    exacts [h.hello_timer, h.fail_timer, h.config, h.count0]
  · refine ⟨?_, ?_, ?_, ?_⟩ <;> rw [hd]
    exacts [h.hello_timer, h.fail_timer,
      fun i => (h.config i).trans (ErppRing.sameConfig_update _ hc i), h.count0]

theorem TimerRun.Follows.serves (h : s.Follows d) (hsr : d.Serves) : s.domain.Serves := by
  intro k hms
  rw [h.hello_timer, h.fail_timer, helloUsers_congr h.config, helloUsers_congr h.config]
  exact hsr k ((h.config k).activeMaster_iff.mp hms)

theorem helloUsers_pos {l : List (Fin 4)} (hk : k ∈ l) (h : (d.ring k).ActiveMaster) :
    0 < d.helloUsers l :=
  countP_pos_iff.mpr ⟨k, hk, decide_eq_true ⟨h.1, .inl h.2⟩⟩

theorem masters_le_helloUsers (d : ErppDomain) (l : List (Fin 4)) : d.masters l ≤ d.helloUsers l :=
  countP_mono_left fun _ _ hj =>
    have hms := of_decide_eq_true hj
    decide_eq_true ⟨hms.1, .inl hms.2⟩

theorem before_or_before (j k : Fin 4) : k ∈ ringsBefore j ∨ j = k ∨ j ∈ ringsBefore k := by
  decide +revert

section

variable (h : d.Serves) (hk : (d.ring k).ActiveMaster)
include h hk

theorem ErppDomain.Serves.unique {j : Fin 4} (hj : (d.ring j).ActiveMaster) : j = k := by
  rcases before_or_before j k with hb | hsm | hb
  · exact absurd (h j hj).1 (helloUsers_pos hb hk).ne'
  · exact hsm
  · exact absurd (h k hk).1 (helloUsers_pos hb hj).ne'

theorem ErppDomain.Serves.masters_eq_one : d.masters timerRings = 1 := by
  have hno : ∀ l : List (Fin 4), k ∉ l → d.masters l = 0 := by
    intro l hl
    refine countP_eq_zero.mpr fun j hj hms => hl ?_
    rwa [← h.unique hk (of_decide_eq_true hms)]
  have hsp : d.masters timerRings = d.masters (ringsBefore k) + (d.masters (ringsAfter k) + 1) := by
    unfold masters
    rw [timerRings_split k, countP_append, countP_cons, if_pos (decide_eq_true hk)]
  rw [hsp, hno _ (notMem_ringsBefore k), hno _ (notMem_ringsAfter k)]

theorem ErppDomain.Serves.countsAt :
    d.helloCountAt k = d.timer_count0 ∧ d.failCountAt k = d.timer_count1 := by
  have hu := (h k hk).1
  have hma : d.masters (ringsBefore k) = 0 :=
    eq_zero_of_le_zero ((masters_le_helloUsers d _).trans hu.le)
  unfold helloCountAt failCountAt
  rw [hu, hma]
  exact ⟨rfl, rfl⟩

end

theorem status_timerHandler (hk : (d.ring k).ActiveMaster) :
    ((erppDomainTimerHandler host d).entry.ring k).node.erpp_node_status = nodeFail ↔
      (d.ring k).node.erpp_node_status = nodeFail ∨ d.failCountAt k = 0 := by
  obtain ⟨count2, hrg⟩ := timerHandler_ring host d k
  have hr : (d.ring k).node.erpp_node_role ≠ .assistantEdge := by
    intro hr
    have hro : NodeRole.assistantEdge = NodeRole.master := hr.symm.trans hk.2
    cases hro
  rw [hrg, ErppRing.ticked]
  by_cases hc : d.failCountAt k = 0
  · rw [if_pos ⟨hk, hc⟩]
    exact iff_of_true rfl (.inr hc)
  · rw [if_neg fun h => hc h.2, if_neg fun h => hr h.2.1]
    exact (or_iff_left hc).symm

def TimerRun.Counts (s : TimerRun) : Prop :=
  ∀ k, (s.domain.ring k).ActiveMaster →
    (s.domain.ring k).node.erpp_node_status = nodeFail ∨ s.endedFailure k = true ∨
      (s.quiet k : ℤ) ≤ s.domain.fail_timer ∧
        s.domain.timer_count1 = s.domain.fail_timer - s.quiet k

theorem TimerRun.counts_start (hfr : d.Fresh) (hsr : d.Serves) : (start d).Counts := by
  intro k hk
  have hc : d.timer_count1 = d.fail_timer - ((0 : ℕ) : ℤ) := by
    rw [hfr.count1, cast_zero, sub_zero]
  exact .inr (.inr ⟨(hsr k hk).2.2.2, hc⟩)

theorem TimerRun.Counts.tick (h : s.Counts) (hsr : s.domain.Serves)
    (hf : s.Fair host .tick) : (s.step host .tick).Counts := by
  intro k hk
  have htn := foldl_timerRing_spec host timerRings (ErppRun.start s.domain)
  have hms : (s.domain.ring k).ActiveMaster := (htn.config k).activeMaster_iff.mp hk
  have hsa : ((s.step host .tick).domain.ring k).node.erpp_node_status = nodeFail ↔
      (s.domain.ring k).node.erpp_node_status = nodeFail ∨ s.domain.timer_count1 = 0 := by
    rw [← (hsr.countsAt hms).2]
    exact status_timerHandler hms
  have htm : (s.step host .tick).domain.fail_timer = s.domain.fail_timer := htn.fail_timer
  have hcount1 : (s.step host .tick).domain.timer_count1 =
      countdown s.domain.fail_timer s.domain.timer_count1 := by
    have ht := htn.count1
    dsimp only [ErppRun.start] at ht
    rw [hsr.masters_eq_one hms] at ht
    exact ht
  rcases h k hms with hfa | he | ⟨hq, hc⟩
  · exact .inl (hsa.mpr (.inl hfa))
  · exact absurd he (by rw [hf k hms]; decide)
  · by_cases hz : s.domain.timer_count1 = 0
    · exact .inl (hsa.mpr (.inr hz))
    refine .inr (.inr ?_)
    rw [htm, hcount1, countdown_of_ne hz]
    dsimp only [step]
    omega

theorem TimerRun.Counts.hello {rx : ℕ} (h : s.Counts) (hsr : s.domain.Serves)
    (hfa : s.Fair host (.hello rx pkt)) : (s.step host (.hello rx pkt)).Counts := by
  intro k hk
  rcases fair_hello_cases hfa with ⟨hsm, hot⟩ | ⟨j, ho, hj, r, flush, i, count1, hc, hst, hd⟩
  · rw [hsm] at hk ⊢
    have hn := hot k hk
    dsimp only [step]
    rw [if_neg hn, if_neg hn]
    exact h k hk
  · have hkj : k = j := by
      rw [hd] at hk
      exact hsr.unique hj ((ErppRing.sameConfig_update s.domain.ring hc k).activeMaster_iff.mp hk)
    subst hkj
    rcases hst with hf | rfl
    · -- the hello ends a failure, which is noted
      refine .inr (.inl ?_)
      dsimp only [step]
      rw [if_pos ho]
      exact decide_eq_true hf
    · have hq : (s.step host (.hello rx pkt)).quiet k = 0 := if_pos ho
      refine .inr (.inr ?_)
      rw [hq, hd]
      exact ⟨(hsr k hj).2.2.2, by simp⟩

theorem helloDue_iff_of_isCoprime {timer : ℤ} {users ticks : ℕ} (ht : 1 ≤ timer)
    (hu : 0 < users) (hc : IsCoprime (users : ℤ) timer) :
    (countdown timer)^[users * ticks] timer = 0 ↔ HelloDue timer ticks := by
  rw [iterate_countdown_eq_zero_iff ht, HelloDue, or_iff_left (by omega)]
  refine and_congr ⟨fun h => Nat.pos_of_mul_pos_left h, fun h => Nat.mul_pos hu h⟩ ?_
  push_cast
  exact ⟨hc.symm.dvd_of_dvd_mul_left, fun h => h.mul_left _⟩

theorem TimerRun.onTime_of_serves (hfr : d.Fresh) (hsr : d.Serves) (hf : s.Follows d)
    (hc : s.Counts) (hfi : s.Fair host .tick) : s.OnTime host := by
  intro k hk
  have hsr' := hf.serves hsr
  obtain ⟨hh, hfl⟩ := hsr'.countsAt hk
  obtain ⟨-, ht, hcp, -⟩ := hsr k ((hf.config k).activeMaster_iff.mp hk)
  have hu : 0 < d.helloUsers timerRings :=
    helloUsers_pos (mem_timerRings k) ((hf.config k).activeMaster_iff.mp hk)
  have hd : s.domain.helloCountAt k = 0 ↔ HelloDue s.domain.hello_timer s.ticks := by
    rw [hh, hf.count0, hf.hello_timer]
    exact helloDue_iff_of_isCoprime ht hu hcp
  rw [hellosOf_timerHandler host (hfr.numbered.of_sameConfig hf.config)]
  refine ⟨fun h => if_pos ⟨hk, hd.mpr h⟩, fun h => if_neg fun hcd => h (hd.mp hcd.2), ?_⟩
  rw [status_timerHandler hk, hfl]
  rcases hc k hk with hfa | he | ⟨hq, hcn⟩
  · exact iff_of_true (.inl hfa) (.inl hfa)
  · exact absurd he (by rw [hfi k hk]; decide)
  · refine or_congr_right ?_
    omega

theorem TimerRun.onTime_of_fairRun (hfr : d.Fresh) (hsr : d.Serves) (es : List TimerEvent)
    (hfo : s.Follows d) (hc : s.Counts) (hf : s.FairRun host (es ++ [.tick])) :
    (es.foldl (step host) s).OnTime host := by
  induction es generalizing s with
  | nil => exact onTime_of_serves hfr hsr hfo hc hf.1
  | cons e es ih =>
    have hsr' := hfo.serves hsr
    cases e with
    | tick => exact ih hfo.tick (hc.tick hsr' hf.1) hf.2
    | hello rx pkt => exact ih (hfo.hello hf.1) (hc.hello hsr' hf.1) hf.2

theorem TimerRun.ticks_spec (n : ℕ) (hfo : s.Follows d)
    (he : s.endedFailure = fun _ => false) :
    s.FairRun host (replicate n .tick ++ [.tick]) ∧
      ((replicate n .tick).foldl (step host) s).Follows d ∧
      ((replicate n .tick).foldl (step host) s).ticks = s.ticks + n := by
  have hf : s.Fair host .tick := fun k _ => by rw [he]
  induction n generalizing s with
  | zero => exact ⟨⟨hf, trivial⟩, hfo, rfl⟩
  | succ n ih =>
    have hf' : (s.step host .tick).Fair host .tick := fun k _ => congrFun he k
    obtain ⟨hrun, hfo', ht⟩ := ih hfo.tick he hf'
    refine ⟨⟨hf, hrun⟩, hfo', ?_⟩
    rw [replicate_succ, foldl_cons, ht]
    dsimp only [step]
    omega

theorem helloDue_iff_of_onTime (hfr : d.Fresh) (hf : s.Follows d)
    (hk : (d.ring k).ActiveMaster) (h : s.OnTime host) :
    (countdown d.hello_timer)^[d.helloUsers (ringsBefore k) + d.helloUsers timerRings * s.ticks]
      d.hello_timer = 0 ↔ HelloDue d.hello_timer s.ticks := by
  have hk' : (s.domain.ring k).ActiveMaster := (hf.config k).activeMaster_iff.mpr hk
  obtain ⟨hd, hnotDue, -⟩ := h k hk'
  rw [hellosOf_timerHandler host (hfr.numbered.of_sameConfig hf.config),
    hf.hello_timer] at hd hnotDue
  have hc : s.domain.helloCountAt k = (countdown d.hello_timer)^[
      d.helloUsers (ringsBefore k) + d.helloUsers timerRings * s.ticks] d.hello_timer := by
    unfold helloCountAt
    rw [hf.hello_timer, hf.count0, helloUsers_congr hf.config, ← iterate_add_apply]
  rw [← hc]
  constructor
  · intro hz
    by_contra hn
    have hno := hnotDue hn
    rw [if_pos ⟨hk', hz⟩] at hno
    cases hno
  · intro hd'
    by_contra hn
    have ho := hd hd'
    rw [if_neg fun hcd => hn hcd.2] at ho
    cases ho

theorem serves_of_onTime (hfr : d.Fresh)
    (h : ∀ es : List TimerEvent, (TimerRun.start d).FairRun host (es ++ [.tick]) →
      (es.foldl (step host) (.start d)).OnTime host) : d.Serves := by
  intro k hk
  have hst := follows_start hfr
  have hu : 0 < d.helloUsers timerRings := helloUsers_pos (mem_timerRings k) hk
  -- the master sends in a run of seconds as it should
  have hsn : ∀ n : ℕ, (countdown d.hello_timer)^[
      d.helloUsers (ringsBefore k) + d.helloUsers timerRings * n] d.hello_timer = 0 ↔
      HelloDue d.hello_timer n := by
    intro n
    obtain ⟨hrun, hfo, ht⟩ :
      (TimerRun.start d).FairRun host (replicate n .tick ++ [.tick]) ∧ _ ∧ _ :=
      ticks_spec n hst rfl
    have hdu := helloDue_iff_of_onTime hfr hfo hk (h _ hrun)
    rwa [ht, show (TimerRun.start d).ticks = 0 from rfl, zero_add] at hdu
  have htm : 1 ≤ d.hello_timer := by
    by_contra hlt
    have hle : d.hello_timer ≤ 0 := by omega
    have hz := (hsn 1).mpr (.inr hle)
    have htn : d.helloUsers (ringsBefore k) + d.helloUsers timerRings * 1 =
        d.helloUsers (ringsBefore k) + (d.helloUsers timerRings - 1) + 1 := by omega
    rw [htn] at hz
    exact (iterate_countdown_lt_zero hle _).ne hz
  have hmu : ∀ n : ℕ, (0 < d.helloUsers (ringsBefore k) + d.helloUsers timerRings * n ∧
      d.hello_timer ∣ ((d.helloUsers (ringsBefore k) + d.helloUsers timerRings * n : ℕ) : ℤ)) ↔
      0 < n ∧ d.hello_timer ∣ n := by
    intro n
    rw [← iterate_countdown_eq_zero_iff htm, hsn, HelloDue, or_iff_left (by omega)]
  have hf : d.helloUsers (ringsBefore k) = 0 := by
    by_contra hne
    have hpo := pos_of_ne_zero hne
    -- after a whole period the master is as far from zero as the rings before it are many
    have hp := (hmu d.hello_timer.toNat).mpr ⟨by omega, by rw [Int.toNat_of_nonneg (by omega)]⟩
    have hd : d.hello_timer ∣ (d.helloUsers (ringsBefore k) : ℤ) := by
      have hsu := hp.2
      push_cast at hsu
      rw [Int.toNat_of_nonneg (by omega)] at hsu
      exact (Int.dvd_add_left (Int.dvd_mul_left _ _)).mp hsu
    have hz := (hmu 0).mp ⟨by omega, by simpa using hd⟩
    exact absurd hz.1 (lt_irrefl 0)
  refine ⟨hf, htm, isCoprime_of_dvd_of_dvd_mul htm fun n hn hd => ?_, ?_⟩
  · refine ((hmu n).mp ⟨?_, ?_⟩).2
    · rw [hf, zero_add]
      exact mul_pos hu hn
    · rw [hf, zero_add]
      exact hd
  · -- a ring with a negative fail timer should fail at once, and never does
    by_contra hng
    have hsa := ((h [] ⟨fun _ _ => rfl, trivial⟩) k hk).2.2
    have hcmp : (d.ring k).node.erpp_node_status ≠ nodeFail := by
      rw [hfr.complete k hk]
      decide
    have hfa := hsa.mpr (.inr (by
      have hq : ((TimerRun.start d).quiet k : ℤ) = 0 := rfl
      dsimp only [foldl_nil]
      rw [hq]
      exact (Int.not_le.mp hng).le))
    have hma : d.masters (ringsBefore k) = 0 :=
      eq_zero_of_le_zero ((masters_le_helloUsers d _).trans hf.le)
    have hc : d.failCountAt k = d.fail_timer := by
      unfold failCountAt
      rw [hma, hfr.count1]
      rfl
    have hz := ((status_timerHandler hk).mp hfa).resolve_left hcmp
    omega

end

/-- In a domain whose timers have just been set, the masters are on time in every run that may
happen exactly if the countdowns of the domain serve them. -/
theorem masters_onTime_iff {d : ErppDomain} (hfresh : d.Fresh) :
    (∀ es : List TimerEvent, (TimerRun.start d).FairRun host (es ++ [.tick]) →
      (es.foldl (step host) (.start d)).OnTime host) ↔ d.Serves :=
  ⟨serves_of_onTime hfresh, fun hserves es =>
    onTime_of_fairRun hfresh hserves es (follows_start hfresh)
      (counts_start hfresh hserves)⟩

def oneMaster : ErppDomain :=
  erppDomainRingProcess zeroDaemon.stray 1 true
    (erppDomainRingConfigureProcess zeroDaemon.stray 1 0 1 2 1 (newDomain 1))

def twoMasters : ErppDomain :=
  erppDomainRingProcess zeroDaemon.stray 2 true
    (erppDomainRingConfigureProcess zeroDaemon.stray 2 0 3 4 1 oneMaster)

def ownHello : ErppPacket := ⟨1, helloPacket, 1, 1, Bytes.zero 6, 3, 9, 1⟩

theorem oneMaster_fresh : oneMaster.Fresh where
  count0 := rfl
  count1 := rfl
  numbered := by
    unfold ErppDomain.Numbered
    decide
  complete := by decide

theorem oneMaster_serves : oneMaster.Serves := by
  intro k hk
  obtain rfl : k = 0 := by
    revert k
    decide
  refine ⟨by decide, by decide, ?_, by decide⟩
  have hu : oneMaster.helloUsers timerRings = 1 := by decide
  rw [hu, cast_one]
  exact isCoprime_one_left

/-- With one master and the default timers, the master is on time after three seconds. -/
theorem oneMaster_onTime :
    ([.tick, .tick, .tick].foldl (step zeroDaemon)
      (start oneMaster)).OnTime zeroDaemon := by
  have hfair : ∀ s : TimerRun, s.endedFailure = (fun _ => false) → s.Fair zeroDaemon .tick :=
    fun s hs k _ => by rw [hs]
  exact (masters_onTime_iff zeroDaemon oneMaster_fresh).mpr oneMaster_serves _
    ⟨hfair _ rfl, hfair _ rfl, hfair _ rfl, hfair _ rfl, trivial⟩

/-- With two masters the second sends its first hello too early. With one master, a failure and a
hello that ends it, the ring fails again in the second after, though the hello has just come back.
-/
theorem masters_notOnTime :
    ¬ (([.tick].foldl (step zeroDaemon) (start twoMasters)).OnTime zeroDaemon) ∧
    ¬ (((List.replicate 18 TimerEvent.tick ++ [TimerEvent.hello 2 ownHello]).foldl (step zeroDaemon)
      (start oneMaster)).OnTime zeroDaemon) := by
  constructor
  · intro h
    have hsent := (h 1 (by decide)).2.1 (by decide)
    cases hsent
  · intro h
    have hstatus := (h 0 (by decide +kernel)).2.2.mp (by decide +kernel)
    exact absurd hstatus (by decide +kernel)

end Chanos.Erpp

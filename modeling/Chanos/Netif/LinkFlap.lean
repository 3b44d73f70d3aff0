import Mathlib.Data.UInt
import Mathlib.Data.List.Chain

/-!
# The damping of link flaps

`npd_eth_port_thread_notifier` reports a link event at once, drops it where it repeats the last one,
or postpones it. `npd_eth_port_handle_delay_event` reports the last event of a port that has
postponed ones. It does not look at what was reported last, nor at the speed and the duplex of the
event that was postponed (`settled_follows`).
-/

namespace Chanos.Netif

/-- The fields of `struct eth_port_s` that a link event sets. -/
structure LinkRecord where
  link : Bool := false
  speed : UInt32 := 0
  half_duplex : Bool := false
  lastLinkChange : UInt32 := 0
  admin : Bool := true

/-- A link event: what the hardware reports, the clock, and whether the tables are heavy. -/
structure LinkReport where
  up : Bool
  speed : UInt32
  half_duplex : Bool
  tnow : UInt32
  heavy : Bool

/-- The record of a port, its entry of `npd_ethport_change_fast_detect`, the delay that all ports
share, and what was notified, latest first. -/
structure FlapState where
  port : LinkRecord := {}
  last_event : Option Bool := none
  fast_count : ℕ := 0
  auto_shutdown : Bool := false
  global_portup_event_delay_count : ℕ := 0
  notified : List Bool := []
  clock : UInt32 := 0
  latest : Option LinkReport := none

def LinkRecord.afterEvent (port : LinkRecord) (e : LinkReport) : LinkRecord :=
  if e.up then { port with link := true, speed := e.speed, half_duplex := e.half_duplex }
  else { port with link := false }

variable (s : FlapState)

def npdEthPortThreadNotifier (e : LinkReport) : FlapState :=
  if s.last_event = some e.up then s
  else
    let delay := if ¬e.up ∧ e.heavy then 4 else s.global_portup_event_delay_count
    let s := { s with last_event := some e.up, global_portup_event_delay_count := delay }
    let report (s : FlapState) : FlapState :=
      { s with
        port := { s.port.afterEvent e with lastLinkChange := e.tnow }
        notified := e.up :: s.notified }
    if e.tnow - s.port.lastLinkChange < 1 then
      if s.fast_count + 1 > 10 then report { s with auto_shutdown := true, fast_count := 1 }
      else { s with fast_count := s.fast_count + 1 }
    else if delay ≠ 0 then
      if e.up then { s with fast_count := s.fast_count + 1 } else report s
    else report { s with fast_count := 0 }

def delayTurn (tnow : UInt32) (s : FlapState) : FlapState :=
  let s :=
    if s.auto_shutdown ∧ tnow - s.port.lastLinkChange > 300 then
      { s with port.admin := true, auto_shutdown := false }
    else s
  if s.global_portup_event_delay_count > 0 ∧ s.last_event = some true then s
  else if s.fast_count > 0 ∧ tnow - s.port.lastLinkChange > 1 then
    match s.last_event with
    | some up =>
      { s with
        port.lastLinkChange := tnow, port.link := up, notified := up :: s.notified, fast_count := 0 }
    | none => { s with fast_count := 0 }
  else s

def npdEthPortHandleDelayEvent (tnow : UInt32) (s : FlapState) : FlapState :=
  delayTurn tnow
    { s with global_portup_event_delay_count := s.global_portup_event_delay_count - 1 }

/-- What happens to the port: an event, a run of the delay handler, or a link-down of another port
under heavy load. -/
inductive FlapStep
  | event (e : LinkReport)
  | delay (tnow : UInt32)
  | otherDown

open FlapStep

def FlapStep.run : FlapStep → FlapState
  | .event e => { npdEthPortThreadNotifier s e with clock := e.tnow, latest := some e }
  | .delay tnow => { npdEthPortHandleDelayEvent tnow s with clock := tnow }
  | .otherDown => { s with global_portup_event_delay_count := 4 }

def FlapStep.InTime : FlapStep → Prop
  | .event e => s.clock ≤ e.tnow
  | .delay tnow => s.clock ≤ tnow
  | .otherDown => True

/-- The event is reported at once: it does not repeat the last one, and it comes in a later second
than the last change, and while no up-delay runs if it is a link-up, or after ten postponed ones. -/
def FlapState.ReportsAtOnce (e : LinkReport) : Prop :=
  s.last_event ≠ some e.up ∧
    if e.tnow - s.port.lastLinkChange < 1 then 10 ≤ s.fast_count
    else e.up = true → s.global_portup_event_delay_count = 0

/-- The delay handler reports the last event: some were postponed, the last change is long enough
ago, and no up-delay holds a link-up back. -/
def FlapState.ReportsLate (tnow : UInt32) : Prop :=
  0 < s.fast_count ∧ 1 < tnow - s.port.lastLinkChange ∧
    (s.last_event = some true → s.global_portup_event_delay_count ≤ 1)

instance (e : LinkReport) : Decidable (s.ReportsAtOnce e) := inferInstanceAs (Decidable (_ ∧ _))

instance (tnow : UInt32) : Decidable (s.ReportsLate tnow) := inferInstanceAs (Decidable (_ ∧ _))

/-- What the port needs of a step: an event that is reported, unless it is the first one, is not what
the record has, and an event that is not a link-up reported at once has the speed and the duplex of
the record. -/
def FlapStep.Fits : FlapStep → Prop
  | .event e =>
    (s.ReportsAtOnce e → s.notified = [] ∨ e.up ≠ s.port.link) ∧
      ((s.ReportsAtOnce e ∧ e.up = true) ∨
        (e.speed = s.port.speed ∧ e.half_duplex = s.port.half_duplex))
  | .delay tnow => s.ReportsLate tnow → s.notified = [] ∨ s.last_event ≠ some s.port.link
  | .otherDown => True

/-- Every step of the run is in time and fits. -/
def FlapRun : FlapState → List FlapStep → Prop
  | _, [] => True
  | s, step :: l => step.InTime s ∧ step.Fits s ∧ FlapRun (step.run s) l

/-- The record and the notifications follow the last event. -/
def Follows : Prop :=
  (∀ e, s.latest = some e → s.port.link = e.up ∧ s.port.speed = e.speed ∧
    s.port.half_duplex = e.half_duplex ∧ s.notified.head? = some e.up)

structure FlapInvariant (s : FlapState) : Prop where
  last_event : s.last_event = s.latest.map LinkReport.up
  values : ∀ e, s.latest = some e → s.port.speed = e.speed ∧ s.port.half_duplex = e.half_duplex
  link : ∀ up, s.notified.head? = some up → s.port.link = up
  alternate : s.notified.IsChain (· ≠ ·)
  reported : s.fast_count = 0 → ∀ up, s.last_event = some up → s.notified.head? = some up
  clock : s.port.lastLinkChange ≤ s.clock
  postponed : 0 < s.fast_count → ∃ e, s.latest = some e ∧ s.port.lastLinkChange ≤ e.tnow ∧
    e.tnow ≤ s.clock

theorem FlapInvariant.follows {s : FlapState} (h : FlapInvariant s) (h0 : s.fast_count = 0) :
    Follows s := by
  intro e he
  have hh := h.reported h0 e.up (by rw [h.last_event, he]; rfl)
  exact ⟨h.link e.up hh, (h.values e he).1, (h.values e he).2, hh⟩

section

variable {s : FlapState} {e : LinkReport} {tnow : UInt32}

theorem notifier_cases (s : FlapState) (e : LinkReport) :
    (s.last_event = some e.up ∧ npdEthPortThreadNotifier s e = s) ∨
      ∃ delay count shutdown,
        let t := { s with
          last_event := some e.up, global_portup_event_delay_count := delay, fast_count := count
          auto_shutdown := shutdown }
        (¬s.ReportsAtOnce e ∧ 0 < count ∧ npdEthPortThreadNotifier s e = t) ∨
          (s.ReportsAtOnce e ∧ npdEthPortThreadNotifier s e = { t with
            port := { s.port.afterEvent e with lastLinkChange := e.tnow }
            notified := e.up :: s.notified }) := by
  unfold npdEthPortThreadNotifier FlapState.ReportsAtOnce
  split
  · exact .inl ⟨‹_›, rfl⟩
  right
  dsimp only
  generalize hd : (if ¬e.up ∧ e.heavy then 4 else s.global_portup_event_delay_count) = delay
  split
  · split
    · exact ⟨_, _, _, .inr ⟨⟨‹_›, by omega⟩, rfl⟩⟩
    · exact ⟨_, _, _, .inl ⟨fun h => by omega, Nat.succ_pos _, rfl⟩⟩
  split
  · split
    · exact ⟨_, _, _, .inl ⟨by grind, Nat.succ_pos _, rfl⟩⟩
    · exact ⟨_, _, _, .inr ⟨by grind, rfl⟩⟩
  · exact ⟨_, _, _, .inr ⟨by grind, rfl⟩⟩

theorem delay_cases (tnow : UInt32) (s : FlapState) :
    ∃ delay shutdown admin,
      let t := { s with
        global_portup_event_delay_count := delay, auto_shutdown := shutdown, port.admin := admin }
      (npdEthPortHandleDelayEvent tnow s = t ∧
          (s.global_portup_event_delay_count - 1 = 0 → 0 < s.fast_count →
            tnow - s.port.lastLinkChange ≤ 1)) ∨
        (s.last_event = none ∧ npdEthPortHandleDelayEvent tnow s = { t with fast_count := 0 }) ∨
        ∃ up, s.last_event = some up ∧ s.ReportsLate tnow ∧
          npdEthPortHandleDelayEvent tnow s = { t with
            port.lastLinkChange := tnow, port.link := up, notified := up :: s.notified
            fast_count := 0 } := by
  have hf : ∀ s : FlapState, ∃ shutdown admin,
      (if s.auto_shutdown ∧ tnow - s.port.lastLinkChange > 300 then
        { s with port.admin := true, auto_shutdown := false } else s) =
      { s with auto_shutdown := shutdown, port.admin := admin } := fun s => by
    split
    all_goals exact ⟨_, _, rfl⟩
  obtain ⟨shutdown, admin, hf⟩ := hf
    { s with global_portup_event_delay_count := s.global_portup_event_delay_count - 1 }
  refine ⟨s.global_portup_event_delay_count - 1, shutdown, admin, ?_⟩
  unfold npdEthPortHandleDelayEvent delayTurn FlapState.ReportsLate
  rw [hf]
  dsimp only
  split
  · exact .inl ⟨rfl, by omega⟩
  split
  · split
    · exact .inr (.inr ⟨_, ‹_›, by grind, rfl⟩)
    · exact .inr (.inl ⟨‹_›, rfl⟩)
  · exact .inl ⟨rfl, by grind⟩

namespace FlapInvariant

section

variable (h : FlapInvariant s)
include h

theorem alternate_cons {up : Bool}
    (hn : s.notified = [] ∨ up ≠ s.port.link) : (up :: s.notified).IsChain (· ≠ ·) := by
  cases hnt : s.notified with
  | nil => exact .singleton up
  | cons a l =>
    have hlk : s.port.link = a := h.link a (by rw [hnt]; rfl)
    have ha := h.alternate
    rw [hnt] at hn ha
    refine .cons_cons ?_ ha
    rw [← hlk]
    exact hn.resolve_left (List.cons_ne_nil a l)

theorem event (ht : s.clock ≤ e.tnow)
    (hf : (event e).Fits s) : FlapInvariant ((event e).run s) := by
  have hc := UInt32.le_trans h.clock ht
  obtain ⟨hn, hv⟩ := hf
  rcases notifier_cases s e with
    ⟨hla, hrun⟩ | ⟨delay, count, shutdown, ⟨hno, hcn, hrun⟩ | ⟨hre, hrun⟩⟩ <;>
    simp only [run, hrun]
  · -- A repeated event changes nothing, so it has the values of the record.
    have hv := hv.resolve_left fun h => h.1.1 hla
    exact ⟨hla, fun _ heq => by grind, h.link, h.alternate, h.reported, hc,
      fun _ => ⟨e, rfl, hc, UInt32.le_refl _⟩⟩
  · have hv := hv.resolve_left fun h => hno h.1
    exact ⟨rfl, fun _ heq => by grind, h.link, h.alternate, by grind, hc,
      fun _ => ⟨e, rfl, hc, UInt32.le_refl _⟩⟩
  · have hlk : (s.port.afterEvent e).link = e.up := by
      unfold LinkRecord.afterEvent
      grind
    refine ⟨rfl, ?_, ?_, h.alternate_cons (hn hre), by grind, UInt32.le_refl _,
      fun _ => ⟨e, rfl, UInt32.le_refl _, UInt32.le_refl _⟩⟩
    · unfold LinkRecord.afterEvent
      grind
    · exact fun up hup => hlk.trans (Option.some.inj hup)

theorem delay (ht : s.clock ≤ tnow)
    (hf : (delay tnow).Fits s) : FlapInvariant ((delay tnow).run s) := by
  have hc := UInt32.le_trans h.clock ht
  obtain ⟨delay, shutdown, admin, ⟨hrun, -⟩ | ⟨hla, hrun⟩ | ⟨up, hla, hre, hrun⟩⟩ :=
    delay_cases tnow s <;> simp only [run, hrun]
  · refine ⟨h.last_event, h.values, h.link, h.alternate, h.reported, hc, fun hcn => ?_⟩
    obtain ⟨e, he, hla, hle⟩ := h.postponed hcn
    exact ⟨e, he, hla, UInt32.le_trans hle ht⟩
  · exact ⟨h.last_event, h.values, h.link, h.alternate, by grind, hc, nofun⟩
  · have hn : s.notified = [] ∨ up ≠ s.port.link :=
      (hf hre).imp_right fun hne heq => hne (by rw [hla, heq])
    exact ⟨h.last_event, h.values, by grind, h.alternate_cons hn, by grind, UInt32.le_refl _, nofun⟩

theorem run {step : FlapStep} (ht : step.InTime s)
    (hf : step.Fits s) : FlapInvariant (step.run s) := by
  cases step with
  | event e => exact h.event ht hf
  | delay tnow => exact h.delay ht hf
  | otherDown => exact ⟨h.1, h.2, h.3, h.4, h.5, h.6, h.7⟩

end

theorem foldl {l : List FlapStep} : ∀ {s : FlapState}, FlapInvariant s → FlapRun s l →
    FlapInvariant (l.foldl FlapStep.run s) := by
  induction l with
  | nil => exact fun h _ => h
  | cons step l ih => exact fun h hrun => ih (h.run hrun.1 hrun.2.1) hrun.2.2

theorem settled (h : FlapInvariant s) (ht : s.clock ≤ tnow)
    (hd : s.global_portup_event_delay_count ≤ 1)
    (hq : ∀ e, s.latest = some e → 2 < tnow - e.tnow) :
    ((FlapStep.delay tnow).run s).fast_count = 0 := by
  obtain ⟨delay, shutdown, admin, ⟨hrun, hwa⟩ | ⟨-, hrun⟩ | ⟨up, -, -, hrun⟩⟩ := delay_cases tnow s <;>
    simp only [FlapStep.run, hrun]
  by_contra hc
  obtain ⟨e, he, hla, hle⟩ := h.postponed (Nat.pos_of_ne_zero hc)
  have hsi := hq e he
  have hsh := hwa (by omega) (Nat.pos_of_ne_zero hc)
  have hn := UInt32.le_trans hle ht
  rw [UInt32.lt_iff_toNat_lt, UInt32.toNat_sub_of_le _ _ hn] at hsi
  rw [UInt32.le_iff_toNat_le, UInt32.toNat_sub_of_le _ _ (UInt32.le_trans hla hn)] at hsh
  rw [UInt32.le_iff_toNat_le] at hla
  change 2 < _ at hsi
  change _ ≤ 1 at hsh
  omega

end FlapInvariant

theorem FlapStep.fast_count_run {step : FlapStep} (hst : ∀ e, step ≠ .event e)
    (h0 : s.fast_count = 0) : (step.run s).fast_count = 0 := by
  cases step with
  | event e => exact absurd rfl (hst e)
  | delay tnow =>
    obtain ⟨_, _, _, ⟨hrun, -⟩ | ⟨-, hrun⟩ | ⟨_, -, -, hrun⟩⟩ := delay_cases tnow s <;>
      simp only [run, hrun, h0]
  | otherDown => exact h0

end

/-- **The settled state follows the last event.** In a run in which every event that is reported, but
the first, differs from the link of the record, and every event that is not a link-up reported at
once has the speed and the duplex of the record: no two reports in a row are the same, and once the
delay handler has run late enough, the record and the last report are those of the last event. -/
theorem settled_follows (port : LinkRecord) (clock : UInt32) (delay : ℕ)
    (before after : List FlapStep) (tnow : UInt32) (hclock : port.lastLinkChange ≤ clock) :
    let start : FlapState := { port, clock, global_portup_event_delay_count := delay }
    let s := before.foldl run start
    FlapRun start (before ++ .delay tnow :: after) →
      let t := (before ++ .delay tnow :: after).foldl run start
      t.notified.IsChain (· ≠ ·) ∧
        (s.global_portup_event_delay_count ≤ 1 → (∀ e, s.latest = some e → 2 < tnow - e.tnow) →
          (∀ step ∈ after, ∀ e, step ≠ .event e) → Follows t) := by
  intro start s hrun t
  have hstart : FlapInvariant start := ⟨rfl, nofun, nofun, .nil, nofun, hclock, nofun⟩
  have ht : FlapInvariant t := hstart.foldl hrun
  refine ⟨ht.alternate, fun hdelay hquiet hafter => ht.follows ?_⟩
  have hsplit : ∀ (l : List FlapStep) (u : FlapState), FlapRun u (l ++ .delay tnow :: after) →
      FlapRun u l ∧ (l.foldl run u).clock ≤ tnow := by
    intro l
    induction l with
    | nil => exact fun u h => ⟨trivial, h.1⟩
    | cons step l ih => exact fun u h => ⟨⟨h.1, h.2.1, (ih _ h.2.2).1⟩, (ih _ h.2.2).2⟩
  obtain ⟨hbefore, htime⟩ := hsplit before start hrun
  have hsettled := (hstart.foldl hbefore).settled htime hdelay hquiet
  have hfold : t = after.foldl FlapStep.run ((FlapStep.delay tnow).run s) := by simp [t, s]
  rw [hfold]
  exact List.foldlRecOn (motive := fun u : FlapState => u.fast_count = 0) after _ hsettled
    fun _ h0 step hmem => fast_count_run (hafter step hmem) h0

/-- A link-up, a link-down in the same second, which is postponed, and the delay handler. -/
theorem settled_follows_postponed :
    let up : LinkReport := ⟨true, 1000, false, 100, false⟩
    let t := ([event up, event { up with up := false }] ++ delay 103 :: []).foldl run { clock := 50 }
    t.notified = [false, true] ∧ Follows t := by
  intro up t
  refine ⟨by decide, (settled_follows {} 50 0 [.event up, .event { up with up := false }] [] 103
    (by decide) ?_).2 (by decide) (by decide) nofun⟩
  simp only [List.cons_append, List.nil_append, FlapRun, InTime, Fits]
  decide

/-- A link that flaps twice in a second is reported up twice, and a link-up that is postponed leaves the
speed and the duplex of the one before. -/
theorem flap_not_followed :
    let up : LinkReport := ⟨true, 1000, false, 100, false⟩
    let slow : LinkReport := ⟨true, 100, true, 100, false⟩
    let s := [event up, .event { up with up := false }, .event slow, .delay 103].foldl
      run { clock := 50 }
    s.notified = [true, true] ∧ ¬Follows s := by
  refine ⟨by decide, fun h => ?_⟩
  exact absurd (h _ rfl).2.1 (by decide)

end Chanos.Netif

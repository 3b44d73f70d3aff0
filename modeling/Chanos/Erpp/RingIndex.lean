import Chanos.Erpp.Timer

/-!
# Accesses to the rings of a domain

Which elements of the array of rings the handlers touch when a frame comes in and when a second
passes. An access is right if its index is one of the array and belongs to the ring that is handled;
three accesses can go wrong (`accesses_right_iff`).
-/

namespace Chanos.Erpp

open Lib List ErppRun

def RightAccesses (touched : List (ℕ × ℤ)) : Prop := ∀ x ∈ touched, InRange x.2 ∧ x.2 = x.1 - 1

theorem rightAccesses_append (l l' : List (ℕ × ℤ)) :
    RightAccesses (l ++ l') ↔ RightAccesses l ∧ RightAccesses l' :=
  forall_mem_append

theorem rightAccesses_replicate (k : Fin 4) (n : ℕ) :
    RightAccesses (replicate n ((k : ℕ) + 1, (k : ℤ))) := by
  intro x hx
  rw [(mem_replicate.mp hx).2]
  exact ⟨inRange_val k, (id_sub_one k).symm⟩

variable (host : Daemon) (rx : ℕ) (pkt : ErppPacket)

/-! ## Frames -/

def ForeignEdgeHello : Prop := pkt.erpp_type = edgeHelloPacket ∧ pkt.sys_mac ≠ host.sys_mac

theorem rxHander_touched (s : ErppRun) (h : ¬ ForeignEdgeHello host pkt) :
    ∃ n, (erppPacketRxHander host rx pkt s).touched =
      s.touched ++ replicate n (pkt.ring_id, (pkt.ring_id : ℤ) - 1) := by
  unfold erppPacketRxHander
  split
  · unfold erppPacketHelloProcess
    dsimp only
    split_ifs
    · exact ⟨1, rfl⟩
    · refine ⟨3, ?_⟩
      simp [erppTxTypePacket, touch, setRing, replicate]
    · exact ⟨1, rfl⟩
  split
  · unfold erppPacketCompleteFlushProcess
    split_ifs
    · exact ⟨1, rfl⟩
    · exact ⟨0, (append_nil _).symm⟩
  split
  · exact ⟨0, (append_nil _).symm⟩
  split
  · unfold erppPacketLinkDownProcess
    dsimp only
    split_ifs
    · refine ⟨3, ?_⟩
      simp [erppTxTypePacket, touch, setRing, replicate]
    · exact ⟨1, rfl⟩
  split
  · next he =>
    have hma : pkt.sys_mac = host.sys_mac := by_contra fun hma => h ⟨he, hma⟩
    unfold erppPacketEdgeHelloProcess
    rw [if_pos hma]
    exact ⟨0, (append_nil _).symm⟩
  split
  · unfold erppPacketFaultProcess
    dsimp only
    split_ifs <;> exact ⟨1, rfl⟩
  · exact ⟨0, (append_nil _).symm⟩

theorem mem_touched_of_foreignEdgeHello (s : ErppRun) (h : ForeignEdgeHello host pkt) :
    (pkt.ring_id, (pkt.ring_id : ℤ)) ∈ (erppPacketRxHander host rx pkt s).touched := by
  obtain ⟨he, hma⟩ := h
  rw [rxHander_edgeHello host rx pkt s he, erppPacketEdgeHelloProcess, if_neg hma]
  dsimp only
  split_ifs <;> simp [touch, setRing, forward]

theorem rxDomain_right_iff (d : ErppDomain) (hid : pkt.ring_id ≤ erppRingSize) :
    RightAccesses (rxDomain host rx pkt d).touched ↔
      1 ≤ pkt.ring_id ∧ ((d.ringAt host.stray (pkt.ring_id - 1)).is_enable = true →
        ¬ ForeignEdgeHello host pkt) := by
  unfold rxDomain
  dsimp only
  generalize hst : (start d).touch pkt.ring_id ((pkt.ring_id : ℤ) - 1) = s
  have ht : s.touched = [(pkt.ring_id, (pkt.ring_id : ℤ) - 1)] := by rw [← hst]; rfl
  have hnm : ∀ n, RightAccesses (replicate (n + 1) (pkt.ring_id, (pkt.ring_id : ℤ) - 1)) ↔
      1 ≤ pkt.ring_id := by
    intro n
    constructor
    · intro h
      have hr := (h _ (mem_replicate.mpr ⟨Nat.succ_ne_zero n, rfl⟩)).1.1
      omega
    · intro hp
      have hlt : pkt.ring_id - 1 < 4 := by unfold erppRingSize at hid; omega
      have hrt := rightAccesses_replicate ⟨pkt.ring_id - 1, hlt⟩ (n + 1)
      rwa [Nat.sub_add_cancel hp, Int.ofNat_sub hp] at hrt
  split_ifs with he
  · by_cases hf : ForeignEdgeHello host pkt
    · refine ⟨fun h => ?_, fun h => absurd hf (h.2 he)⟩
      have hwr := (h _ (mem_touched_of_foreignEdgeHello host rx pkt s hf)).2
      omega
    · obtain ⟨n, hn⟩ := rxHander_touched host rx pkt s hf
      rw [hn, ht, singleton_append, ← replicate_succ, hnm]
      exact (and_iff_left fun _ => hf).symm
  · rw [ht, ← replicate_one, hnm]
    exact (and_iff_left fun h => absurd h he).symm

/-! ## Seconds -/

def ErppRing.ActiveEdge (r : ErppRing) : Prop := r.is_enable = true ∧ r.node.erpp_node_role = .edge

variable {k : Fin 4}

section

variable (s : ErppRun)

/-- What is accessed from `s` to `s'` is the ring that is handled. -/
abbrev Accesses (k : Fin 4) (s s' : ErppRun) : Prop :=
  ∃ n, s'.touched = s.touched ++ replicate n ((k : ℕ) + 1, (k : ℤ))

theorem timerMaster_touched : Accesses k s (timerMaster host k s) := by
  by_cases h0 : s.entry.timer_count0 = 0 <;> by_cases h1 : s.entry.timer_count1 = 0
  · exact ⟨2, by simp [timerMaster, timerFail, timerHello, h0, h1, erppTxTypePacket,
      touch, replicate]⟩
  · exact ⟨1, by simp [timerMaster, timerFail, timerHello, h0, h1, erppTxTypePacket, touch]⟩
  · exact ⟨1, by simp [timerMaster, timerFail, timerHello, h0, h1, erppTxTypePacket, touch]⟩
  · exact ⟨0, by simp [timerMaster, timerFail, timerHello, h0, h1]⟩

theorem timerAssistant_touched : Accesses k s (timerAssistant host k s) := by
  by_cases h2 : s.entry.timer_count2 = 0
  · exact ⟨1, by simp [timerAssistant, h2, erppTxTypePacket, touch]⟩
  · exact ⟨0, by simp [timerAssistant, h2]⟩

theorem timerRing_touched (h : (s.entry.ring k).ActiveEdge → s.entry.timer_count0 ≠ 0) :
    Accesses k s (timerRing host s k) := by
  have hf : ∀ s', Accesses k (s.touch (k + 1) k) s' → Accesses k s s' := by
    rintro s' ⟨n, hn⟩
    refine ⟨n + 1, hn.trans ?_⟩
    rw [touch, append_assoc, singleton_append, ← replicate_succ]
  have hno : Accesses k (s.touch (k + 1) k) (s.touch (k + 1) k) := ⟨0, (append_nil _).symm⟩
  unfold timerRing
  refine hf _ ?_
  dsimp only
  split
  · next he =>
    cases hr : (s.entry.ring k).node.erpp_node_role with
    | master => exact timerMaster_touched host _
    | edge =>
      have hc : (s.touch (k + 1) k).entry.timer_count0 ≠ 0 := h ⟨he, hr⟩
      refine ⟨0, ?_⟩
      dsimp only [timerEdge]
      rw [if_neg hc]
      exact (append_nil _).symm
    | assistantEdge => exact timerAssistant_touched host _
    | transmit | other code => exact hno
  · exact hno

theorem mem_touched_of_activeEdge (he : (s.entry.ring k).ActiveEdge)
    (hc : s.entry.timer_count0 = 0) :
    ((k : ℕ) + 1, (k : ℤ) - 1) ∈ (timerRing host s k).touched := by
  unfold timerRing
  simp [he.1, he.2, timerEdge, hc, erppTxTypePacket, touch]

theorem subset_timerRing_touched (k : Fin 4) : s.touched ⊆ (timerRing host s k).touched := by
  by_cases h : (s.entry.ring k).ActiveEdge → s.entry.timer_count0 ≠ 0
  · obtain ⟨n, hn⟩ := timerRing_touched host s h
    rw [hn]
    exact subset_append_left _ _
  · obtain ⟨he, hc⟩ := Classical.not_imp.mp h
    unfold timerRing
    intro x hx
    simp [he.1, he.2, timerEdge, not_not.mp hc, erppTxTypePacket, touch, hx]

theorem timerRing_right_iff (k : Fin 4) :
    RightAccesses (timerRing host s k).touched ↔
      RightAccesses s.touched ∧ ((s.entry.ring k).ActiveEdge → s.entry.timer_count0 ≠ 0) := by
  constructor
  · intro h
    refine ⟨fun x hx => h x (subset_timerRing_touched host s k hx), fun he hc => ?_⟩
    have hwr := (h _ (mem_touched_of_activeEdge host s he hc)).2
    omega
  · rintro ⟨hr, hc⟩
    obtain ⟨n, hn⟩ := timerRing_touched host s hc
    rw [hn, rightAccesses_append]
    exact ⟨hr, rightAccesses_replicate k n⟩

end

theorem foldl_timerRing_right_iff (l : List (Fin 4)) (s : ErppRun) :
    RightAccesses (l.foldl (timerRing host) s).touched ↔
      RightAccesses s.touched ∧ ∀ l₁ k l₂, l = l₁ ++ k :: l₂ → (s.entry.ring k).ActiveEdge →
        (countdown s.entry.hello_timer)^[s.entry.helloUsers l₁] s.entry.timer_count0 ≠ 0 := by
  induction l generalizing s with
  | nil => simp
  | cons j l ih =>
    have ht := timerRing_spec host s j
    rw [foldl_cons, ih, timerRing_right_iff, and_assoc]
    refine and_congr_right fun _ => ?_
    have he : ∀ k, ((timerRing host s j).entry.ring k).ActiveEdge ↔
        (s.entry.ring k).ActiveEdge := by
      intro k
      unfold ErppRing.ActiveEdge
      rw [(ht.sameConfig k).is_enable, (ht.sameConfig k).role]
    constructor
    · rintro ⟨hf, hrs⟩ l₁ k l₂ hsp ha
      cases l₁ with
      | nil =>
        cases hsp
        exact hf ha
      | cons i l₁ =>
        obtain ⟨rfl, hl⟩ := cons.inj hsp
        rw [← ht.iterate_count0]
        exact hrs l₁ k l₂ hl ((he k).mpr ha)
    · intro h
      refine ⟨h [] j l rfl, fun l₁ k l₂ hl ha => ?_⟩
      rw [ht.iterate_count0]
      exact h (j :: l₁) k l₂ (congrArg (j :: ·) hl) ((he k).mp ha)

theorem eq_ringsBefore {l₁ l₂ : List (Fin 4)} (h : timerRings = l₁ ++ k :: l₂) :
    l₁ = ringsBefore k := by
  have hsp := (timerRings_split k).symm.trans h
  exact ((append_cons_inj_of_notMem (notMem_ringsBefore k) (notMem_ringsAfter k)).mp hsp).1.symm

theorem timerHandler_right_iff (d : ErppDomain) :
    RightAccesses (erppDomainTimerHandler host d).touched ↔
      ∀ k, (d.ring k).ActiveEdge → d.helloCountAt k ≠ 0 := by
  unfold erppDomainTimerHandler
  rw [foldl_timerRing_right_iff]
  constructor
  · rintro ⟨-, h⟩ k ha
    exact h (ringsBefore k) k (ringsAfter k) (timerRings_split k) ha
  · intro h
    refine ⟨fun x hx => absurd hx not_mem_nil, fun l₁ k l₂ hsp ha => ?_⟩
    rw [eq_ringsBefore hsp]
    exact h k ha

/-! ## Every input of a node -/

/-- What makes a node access its rings: a frame that comes in through an interface, and the timer.
-/
inductive ErppInput
  | frame (rx : ℕ) (pkt : ErppPacket)
  | tick

def accesses (tbl : List ErppDomain) : ErppInput → List (ℕ × ℤ)
  | .frame rx pkt => ((erppPacketRxCallback host rx pkt tbl).map ErppRun.touched).getD []
  | .tick => tbl.flatMap fun d => (erppDomainTimerHandler host d).touched

/-- The condition for right accesses. -/
def RightInput (tbl : List ErppDomain) : ErppInput → Prop
  | .frame _ pkt => ∀ d ∈ tbl.find? fun d => d.domain_id = pkt.domain_id,
    pkt.ring_id ≤ erppRingSize → 1 ≤ pkt.ring_id ∧
      ((d.ringAt host.stray (pkt.ring_id - 1)).is_enable = true → ¬ ForeignEdgeHello host pkt)
  | .tick => ∀ d ∈ tbl, ∀ k, (d.ring k).ActiveEdge → d.helloCountAt k ≠ 0

/-- The accesses to the arrays of rings are in range and to the ring handled exactly for the inputs
that meet the condition. -/
theorem accesses_right_iff (tbl : List ErppDomain) (input : ErppInput) :
    RightAccesses (accesses host tbl input) ↔ RightInput host tbl input := by
  cases input with
  | frame rx pkt =>
    dsimp only [accesses, RightInput, erppPacketRxCallback]
    split_ifs with hid
    · refine iff_of_true (fun x hx => absurd hx not_mem_nil) fun d _ hle => ?_
      exact absurd hle (Nat.not_le.mpr hid)
    · cases tbl.find? fun d => d.domain_id = pkt.domain_id with
      | none => exact iff_of_true (fun x hx => absurd hx not_mem_nil) fun d hd => by cases hd
      | some d =>
        have hle := Nat.not_lt.mp hid
        refine (rxDomain_right_iff host rx pkt d hle).trans ⟨fun h e he _ => ?_, fun h => ?_⟩
        · obtain rfl := Option.mem_some.mp he
          exact h
        · exact h d rfl hle
  | tick =>
    unfold accesses RightInput RightAccesses
    simp only [mem_flatMap]
    constructor
    · intro h d hd
      exact (timerHandler_right_iff host d).mp fun x hx => h x ⟨d, hd, hx⟩
    · rintro h x ⟨d, hd, hx⟩
      exact (timerHandler_right_iff host d).mpr (h d hd) x hx

def edgeHelloFour : ErppPacket := ⟨1, edgeHelloPacket, 1, 4, Bytes.six 0 0 0 0 0 1, 3, 9, 2⟩

def fourthRingDomain : ErppDomain :=
  erppDomainRingProcess zeroDaemon.stray 4 true
    (erppDomainRingConfigureProcess zeroDaemon.stray 4 1 1 2 2 (newDomain 1))

/-- The hello of an edge node for the fourth ring makes the node read behind the array. -/
theorem edgeHelloFour_outOfRange :
    (4, 4) ∈ accesses zeroDaemon [fourthRingDomain] (.frame 1 edgeHelloFour) ∧ ¬ InRange 4 ∧
      ¬ RightAccesses (accesses zeroDaemon [fourthRingDomain] (.frame 1 edgeHelloFour)) := by
  have hmem : (4, 4) ∈ accesses zeroDaemon [fourthRingDomain] (.frame 1 edgeHelloFour) := by decide
  exact ⟨hmem, by decide, fun h => absurd (h _ hmem).1 (by decide)⟩

end Chanos.Erpp

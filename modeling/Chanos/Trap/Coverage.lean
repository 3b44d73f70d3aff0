import Mathlib.Data.Set.Card
import Chanos.Lib.Trace
import Chanos.Trap.Counters

/-!
# The counters count the VLANs that cover a port

A VLAN covers a port or trunk that it contains, and the members of a trunk that it contains. The
counters are right when each is the number of VLANs with the feature that cover the port
(`CountsMatch`); then the traps are set exactly on the covered ports.
-/

namespace Chanos.Trap

open Lib List Option Function Nat

variable {type : Port → NetifType}

namespace SwitchCfg

variable {sw sw' : SwitchCfg type} {t t' p q : Port} {v : Vid}

def Covers (sw : SwitchCfg type) (v : Vid) (p : Port) : Prop :=
  sw.InVlan v p ∨ ∃ t, sw.InTrunk t p ∧ sw.InVlan v t

open Classical in
noncomputable def owner (sw : SwitchCfg type) (p : Port) : Port :=
  if h : ∃ t, sw.InTrunk t p then h.choose else p

section

variable (h : sw.InTrunk t p)
include h

theorem InTrunk.type_trunk : type t = .trunk := by
  obtain ⟨ports, hp, -⟩ := h
  exact sw.trunk_type t ports hp

theorem InTrunk.type_member : type p = .eth := by
  obtain ⟨ports, hps, hp⟩ := h
  exact sw.member_type t ports hps p hp

theorem InTrunk.unique (h' : sw.InTrunk t' p) : t = t' := by
  obtain ⟨ports, hps, hp⟩ := h
  obtain ⟨ports', hps', hp'⟩ := h'
  exact sw.member_once t ports t' ports' hps hps' p hp hp'

theorem InTrunk.not_inVlan : ¬sw.InVlan v p := by
  obtain ⟨ports, hps, hp⟩ := h
  rintro ⟨vlan, hv, hme⟩
  exact sw.member_untied t ports v vlan hps hv p hp hme

theorem owner_of_inTrunk : sw.owner p = t := by
  have hex : ∃ t, sw.InTrunk t p := ⟨t, h⟩
  rw [owner, dif_pos hex]
  exact hex.choose_spec.unique h

end

theorem owner_of_not_inTrunk (h : ∀ t, ¬sw.InTrunk t p) : sw.owner p = p :=
  dif_neg (fun ⟨t, ht⟩ => h t ht)

theorem owner_cases (sw : SwitchCfg type) (p : Port) :
    (∃ t, sw.InTrunk t p ∧ sw.owner p = t) ∨ (∀ t, ¬sw.InTrunk t p) ∧ sw.owner p = p := by
  by_cases h : ∃ t, sw.InTrunk t p
  · obtain ⟨t, ht⟩ := h
    exact .inl ⟨t, ht, owner_of_inTrunk ht⟩
  · exact .inr ⟨not_exists.mp h, dif_neg h⟩

theorem owner_of_inVlan (h : sw.InVlan v p) : sw.owner p = p :=
  owner_of_not_inTrunk (fun _ ht => ht.not_inVlan h)

@[simp]
theorem owner_owner : sw.owner (sw.owner p) = sw.owner p := by
  rcases sw.owner_cases p with ⟨t, ht, ho⟩ | ⟨-, ho⟩
  · rw [ho]
    refine owner_of_not_inTrunk fun t' ht' => ?_
    have hty := ht.type_trunk
    rw [ht'.type_member] at hty
    exact absurd hty (by decide)
  · rw [ho, ho]

theorem owner_eq_iff (h : sw.owner p = p) : sw.owner q = p ↔ q = p ∨ sw.InTrunk p q := by
  constructor
  · rintro rfl
    rcases sw.owner_cases q with ⟨t, ht, ho⟩ | ⟨-, ho⟩
    · exact .inr (ho ▸ ht)
    · exact .inl ho.symm
  · rintro (rfl | ht)
    · exact h
    · exact owner_of_inTrunk ht

theorem type_owner (h : type p ≠ .other) : type (sw.owner p) ≠ .other := by
  rcases sw.owner_cases p with ⟨t, ht, ho⟩ | ⟨-, ho⟩
  · rw [ho, ht.type_trunk]
    decide
  · rwa [ho]

theorem covers_iff : sw.Covers v p ↔ sw.InVlan v (sw.owner p) := by
  rcases sw.owner_cases p with ⟨t, ht, ho⟩ | ⟨hno, ho⟩
  · rw [ho]
    constructor
    · rintro (hv | ⟨t', ht', hv⟩)
      · exact absurd hv ht.not_inVlan
      · exact ht'.unique ht ▸ hv
    · exact fun hv => .inr ⟨t, ht, hv⟩
  · rw [ho]
    exact or_iff_left fun ⟨t, ht, _⟩ => hno t ht

end SwitchCfg

open SwitchCfg

/-! ## Writes and loops -/

section

variable {sw : SwitchCfg type} {count count' : Counts} {p q : Port} {n : UInt16}

theorem foldl_update (ports : List Port) (count : Counts) {t : Port} (ht : t ∉ ports) (q : Port) :
    ports.foldl (fun count p => update count p (count t)) count q =
      if q ∈ ports then count t else count q := by
  induction ports generalizing count with
  | nil => simp
  | cons p ports ih =>
    have hp : t ≠ p := fun h => ht (h ▸ mem_cons_self)
    rw [foldl_cons, ih _ (fun h => ht (mem_cons_of_mem p h)), update_of_ne hp]
    by_cases hq : q = p
    · simp [hq]
    · simp [hq]

theorem SwitchCfg.not_inTrunk_self : ¬sw.InTrunk p p := by
  intro h
  have ht := h.type_trunk
  rw [h.type_member] at ht
  exact absurd ht (by decide)

theorem modifyPortByTrunk_apply (h : modifyPortByTrunk sw count p = some count') (q : Port)
    [Decidable (sw.InTrunk p q)] : count' q = if sw.InTrunk p q then count p else count q := by
  rw [modifyPortByTrunk, map_eq_some_iff] at h
  obtain ⟨ports, hps, rfl⟩ := h
  have hse : p ∉ ports := fun hp => sw.not_inTrunk_self ⟨ports, hps, hp⟩
  have hme : sw.InTrunk p q ↔ q ∈ ports :=
    ⟨fun ⟨ports', hps', hq⟩ => mem_unique hps hps' ▸ hq, fun hq => ⟨ports, hps, hq⟩⟩
  rw [foldl_update ports count hse]
  simp only [hme]

theorem writePort_apply (hp : sw.owner p = p) (h : writePort sw count p n = some count')
    (q : Port) : count' q = if sw.owner q = p then n else count q := by
  classical
  simp only [owner_eq_iff hp]
  unfold writePort at h
  split_ifs at h with htk
  · rw [modifyPortByTrunk_apply h q, update_self]
    by_cases hq : q = p
    · subst hq
      simp [sw.not_inTrunk_self]
    · simp [hq]
  · have hno : ¬sw.InTrunk p q := fun ht => htk ht.type_trunk
    cases h
    by_cases hq : q = p
    · subst hq
      simp
    · simp [hq, hno]

theorem writePort_getD_apply (hp : sw.owner p = p) (q : Port) :
    (writePort sw count p n).getD (update count p n) q =
      if sw.owner q = p then n else count q := by
  rcases hwr : writePort sw count p n with _ | count'
  · have hn : sw.trunks p = none := by
      unfold writePort at hwr
      split_ifs at hwr
      exact map_eq_none_iff.mp hwr
    have hno : ¬sw.InTrunk p q := by
      rintro ⟨ports, hps, -⟩
      rw [hn] at hps
      exact absurd hps (by simp)
    simp only [owner_eq_iff hp, hno, or_false, getD_none, update_apply]
  · exact writePort_apply hp hwr q

def OwnerCounts (sw : SwitchCfg type) (count : Counts) : Prop := ∀ q, count (sw.owner q) = count q

theorem OwnerCounts.write (hc : OwnerCounts sw count)
    (hwr : ∀ q, count' q = if sw.owner q = p then n else count q) : OwnerCounts sw count' := by
  intro q
  rw [hwr, hwr, owner_owner, hc q]

theorem loop_apply {round : Counts → Port → Option Counts} {f : UInt16 → UInt16}
    {ports : List Port} (hnd : ports.Nodup) (ho : ∀ p ∈ ports, sw.owner p = p)
    (hr : ∀ p ∈ ports, ∀ c : Counts, c p = count p → round c p = writePort sw c p (f (c p)))
    (hc : OwnerCounts sw count) (h : ports.foldlM round count = some count') (q : Port) :
    count' q = if sw.owner q ∈ ports then f (count q) else count q := by
  induction ports generalizing count with
  | nil =>
    cases h
    simp
  | cons p ports ih =>
    obtain ⟨hn, hnd⟩ := nodup_cons.mp hnd
    rw [foldlM_cons, bind_eq_bind, bind_eq_some_iff] at h
    obtain ⟨count₁, hf, hrs⟩ := h
    rw [hr p mem_cons_self count rfl] at hf
    have hwr := writePort_apply (ho p mem_cons_self) hf
    -- The counters of the ports that are still to come are as before.
    have hla : ∀ p' ∈ ports, count₁ p' = count p' := by
      intro p' hp'
      rw [hwr, ho p' (mem_cons_of_mem p hp'), if_neg (ne_of_mem_of_not_mem hp' hn)]
    rw [ih hnd (fun p' hp' => ho p' (mem_cons_of_mem p hp'))
      (fun p' hp' c hcp => hr p' (mem_cons_of_mem p hp') c (hcp.trans (hla p' hp')))
      (hc.write hwr) hrs, hwr]
    by_cases hq : sw.owner q = p
    · rw [if_pos hq, ← hc q, hq, if_neg hn, if_pos mem_cons_self]
    · simp [hq]

theorem VlanPorts.loop_eq (vlan : VlanPorts) (round : Counts → Port → Option Counts)
    (count : Counts) : vlan.loop round count = vlan.ports.foldlM round count := by
  rw [VlanPorts.loop, VlanPorts.ports, foldlM_append]

theorem foldlM_countUp_isSome_iff (ports : List Port) (count : Counts) :
    (ports.foldlM (countUp sw) count).isSome ↔
      ∀ p ∈ ports, type p = .trunk → (sw.trunks p).isSome := by
  induction ports generalizing count with
  | nil => simp
  | cons p ports ih =>
    rw [foldlM_cons, forall_mem_cons]
    by_cases ht : type p = .trunk
    · rcases hp : sw.trunks p with _ | members
      · simp [countUp, writePort, ht, modifyPortByTrunk, hp]
      · simp [countUp, writePort, ht, modifyPortByTrunk, hp, ih]
    · simp [countUp, writePort, ht, ih]

end

/-! ## The counters are right -/

noncomputable def coverage (vlans : Vid → Bool) (sw : SwitchCfg type) (p : Port) : ℕ :=
  {v | vlans v = true ∧ sw.Covers v p}.ncard

/-- The counter of every Ethernet port and trunk is the number of VLANs with the feature that cover
it, the counter of a member is that of its trunk, and the traps are set on the covered ports. -/
structure CountsMatch (s : TrapState type) : Prop where
  counts : ∀ p, type p ≠ .other →
    (s.cfg.switch_port_control_count p).toNat = coverage s.cfg.vlans s.sw p
  members : ∀ t p, s.sw.InTrunk t p →
    s.cfg.switch_port_control_count p = s.cfg.switch_port_control_count t
  traps : s.cfg.enable ≠ 0 → ∀ p, type p = .eth →
    (s.traps p = true ↔ ∃ v, s.cfg.vlans v = true ∧ s.sw.Covers v p)

section

variable {vlans vlans' : Vid → Bool} {sw sw' : SwitchCfg type} {p q : Port} {v : Vid}

theorem coverage_le (vlans : Vid → Bool) (sw : SwitchCfg type) (p : Port) :
    coverage vlans sw p ≤ 4096 := by
  have hc := Set.ncard_le_card {v | vlans v = true ∧ sw.Covers v p}
  rw [card_eq_fintype_card, Fintype.card_fin] at hc
  exact hc

theorem coverage_ne_zero_iff : coverage vlans sw p ≠ 0 ↔ ∃ v, vlans v = true ∧ sw.Covers v p := by
  rw [coverage, Ne, Set.ncard_eq_zero, ← Ne, ← Set.nonempty_iff_ne_empty]
  rfl

theorem coverage_congr (h : ∀ v, (vlans v = true ∧ sw.InVlan v (sw.owner p)) ↔
    (vlans' v = true ∧ sw'.InVlan v (sw'.owner q))) : coverage vlans sw p = coverage vlans' sw' q := by
  simp only [coverage, covers_iff, h]

theorem coverage_owner : coverage vlans sw (sw.owner p) = coverage vlans sw p :=
  coverage_congr fun v => by rw [owner_owner]

theorem coverage_succ (hv : ¬(vlans v = true ∧ sw.InVlan v (sw.owner p)))
    (h : ∀ v', (vlans' v' = true ∧ sw'.InVlan v' (sw'.owner q)) ↔
      v' = v ∨ (vlans v' = true ∧ sw.InVlan v' (sw.owner p))) :
    coverage vlans' sw' q = coverage vlans sw p + 1 := by
  simp only [coverage, covers_iff, h]
  exact Set.ncard_insert_of_notMem hv

end

theorem coverage_update (vlans : Vid → Bool) (sw : SwitchCfg type) (v : Vid) (p : Port)
    [Decidable (sw.InVlan v (sw.owner p))] :
    coverage (update vlans v true) sw p =
      coverage (update vlans v false) sw p + if sw.InVlan v (sw.owner p) then 1 else 0 := by
  split_ifs with hin
  · refine coverage_succ (v := v) (by simp) fun v' => ?_
    rcases eq_or_ne v' v with rfl | hne
    · simp [hin]
    · simp [hne]
  · refine coverage_congr fun v' => ?_
    rcases eq_or_ne v' v with rfl | hne
    · simp [hin]
    · simp [hne]

theorem toNat_add_one {n : UInt16} (h : n.toNat ≤ 4096) : (n + 1).toNat = n.toNat + 1 := by
  rw [UInt16.toNat_add, UInt16.toNat_one, mod_eq_of_lt (by omega)]

theorem toNat_decrement {n : UInt16} {k : ℕ} (h : n.toNat = k + 1) : (decrement n).toNat = k := by
  have hp : 0 < n := by
    rw [UInt16.lt_iff_toNat_lt, UInt16.toNat_zero]
    omega
  have hle : (1 : UInt16) ≤ n := by
    rw [UInt16.le_iff_toNat_le, UInt16.toNat_one]
    omega
  rw [decrement, if_pos hp, UInt16.toNat_sub_of_le _ _ hle, UInt16.toNat_one]
  omega

section

variable {s s' : TrapState type} {sw' : SwitchCfg type} {v : Vid} {vlan : VlanPorts} {son : Port}
  {sw : SwitchCfg type} {t : Port}

theorem CountsMatch.ownerCounts (h : CountsMatch s) :
    OwnerCounts s.sw s.cfg.switch_port_control_count := by
  intro q
  rcases s.sw.owner_cases q with ⟨t, ht, ho⟩ | ⟨-, ho⟩
  · rw [ho, h.members t q ht]
  · rw [ho]

def RightCounts (sw : SwitchCfg type) (cfg : TrapCfg) : Prop :=
  ∀ p, type p ≠ .other → (cfg.switch_port_control_count p).toNat = coverage cfg.vlans sw p

theorem CountsMatch.iff_rightCounts (h : CountsMatch s) (he : s'.cfg.enable = s.cfg.enable)
    (htr : s'.traps = trapUpdate type s'.cfg s.cfg s.traps) :
    CountsMatch s' ↔ RightCounts s'.sw s'.cfg := by
  refine ⟨fun h' => h'.counts, fun hr => ⟨hr, ?_, ?_⟩⟩
  · intro t p ht
    apply UInt16.toNat_inj.mp
    rw [hr p (by rw [ht.type_member]; decide), hr t (by rw [ht.type_trunk]; decide),
      ← owner_of_inTrunk ht, coverage_owner]
  · intro hon p hp
    have ho : type p ≠ .other := by
      rw [hp]
      decide
    have hn : s'.cfg.switch_port_control_count p ≠ 0 ↔
        ∃ v, s'.cfg.vlans v = true ∧ s'.sw.Covers v p := by
      rw [← coverage_ne_zero_iff, ← hr p ho, Ne, Ne, ← UInt16.toNat_inj, UInt16.toNat_zero]
    have hol : s.traps p = true ↔ s.cfg.switch_port_control_count p ≠ 0 := by
      rw [h.traps (he ▸ hon) p hp, ← coverage_ne_zero_iff, ← h.counts p ho, Ne, Ne,
        ← UInt16.toNat_inj, UInt16.toNat_zero]
    rw [← hn, htr, trapUpdate, if_pos hp, if_neg (not_not.mpr he), if_pos hon]
    split_ifs with hse hc
    · simp [hse.1]
    · simp [hc.1]
    · rw [hol]
      tauto

theorem mem_ports_iff (hv : s.sw.vlans v = some vlan) {p : Port} :
    p ∈ vlan.ports ↔ s.sw.InVlan v p :=
  ⟨fun hp => ⟨vlan, hv, hp⟩, fun ⟨_, hv', hp⟩ =>
    mem_unique hv hv' ▸ hp⟩

section

variable (h : CountsMatch s)
include h

theorem CountsMatch.countUp_apply (hv : s.sw.vlans v = some vlan)
    {count' : Counts}
    (hlp : vlan.loop (countUp s.sw) s.cfg.switch_port_control_count = some count') (q : Port) :
    count' q = if s.sw.owner q ∈ vlan.ports then s.cfg.switch_port_control_count q + 1
      else s.cfg.switch_port_control_count q := by
  rw [VlanPorts.loop_eq] at hlp
  exact loop_apply (f := fun n => n + 1) vlan.nodup
    (fun p hp => owner_of_inVlan ((mem_ports_iff hv).mp hp)) (fun _ _ _ _ => rfl)
    h.ownerCounts hlp q

theorem CountsMatch.countDown_apply (hv : s.cfg.vlans v = true)
    (hvl : s.sw.vlans v = some vlan) {count' : Counts}
    (hlp : vlan.loop (countDown s.sw) s.cfg.switch_port_control_count = some count') (q : Port) :
    count' q = if s.sw.owner q ∈ vlan.ports then decrement (s.cfg.switch_port_control_count q)
      else s.cfg.switch_port_control_count q := by
  rw [VlanPorts.loop_eq] at hlp
  refine loop_apply vlan.nodup
    (fun p hp => owner_of_inVlan ((mem_ports_iff hvl).mp hp)) ?_ h.ownerCounts hlp q
  intro p hp c hcp
  rw [countDown, decrement]
  split_ifs with hpo
  · rfl
  have hn : type p ≠ .trunk := by
    intro ht
    have hc : coverage s.cfg.vlans s.sw p ≠ 0 :=
      coverage_ne_zero_iff.mpr ⟨v, hv, Or.inl ((mem_ports_iff hvl).mp hp)⟩
    rw [← h.counts p (by rw [ht]; decide), ← hcp] at hc
    rw [UInt16.lt_iff_toNat_lt, UInt16.toNat_zero] at hpo
    omega
  rw [writePort, if_neg hn, update_eq_self]

variable {cfg : TrapCfg} (C : Port → Prop) [DecidablePred C]

theorem CountsMatch.up
    (hc : ∀ p, coverage cfg.vlans sw' p = coverage s.cfg.vlans s.sw p + if C p then 1 else 0)
    (hwr : ∀ p, cfg.switch_port_control_count p = if C p then s.cfg.switch_port_control_count p + 1
      else s.cfg.switch_port_control_count p) : RightCounts sw' cfg := by
  intro p hp
  rw [hwr, hc, ← h.counts p hp]
  split_ifs
  · exact toNat_add_one (by rw [h.counts p hp]; exact coverage_le ..)
  · rfl

theorem CountsMatch.down
    (hc : ∀ p, coverage s.cfg.vlans s.sw p = coverage cfg.vlans sw' p + if C p then 1 else 0)
    (hwr : ∀ p, cfg.switch_port_control_count p =
      if C p then decrement (s.cfg.switch_port_control_count p)
      else s.cfg.switch_port_control_count p) : RightCounts sw' cfg := by
  intro p hp
  have hb := (h.counts p hp).trans (hc p)
  rw [hwr]
  split_ifs at hb ⊢
  · exact toNat_decrement hb
  · exact hb

theorem CountsMatch.enableVlan (hv : s.cfg.vlans v = false)
    (hvl : s.sw.vlans v = some vlan) : RightCounts s.sw (enableVlan s.sw vlan v s.cfg).2 := by
  unfold Trap.enableVlan
  rcases hlp : vlan.loop (countUp s.sw) s.cfg.switch_port_control_count with _ | count'
  · exact h.counts
  have ho : update s.cfg.vlans v false = s.cfg.vlans := by rw [← hv, update_eq_self]
  classical
  refine h.up (fun p => s.sw.InVlan v (s.sw.owner p)) (fun p => ?_) fun p => ?_
  · rw [coverage_update, ho]
  · simp only [h.countUp_apply hvl hlp, mem_ports_iff hvl]

theorem CountsMatch.disableVlan (hv : s.cfg.vlans v = true)
    (hvl : s.sw.vlans v = some vlan) : RightCounts s.sw (disableVlan s.sw vlan v s.cfg).2 := by
  unfold Trap.disableVlan
  rcases hlp : vlan.loop (countDown s.sw) s.cfg.switch_port_control_count with _ | count'
  · exact h.counts
  have ho : update s.cfg.vlans v true = s.cfg.vlans := by rw [← hv, update_eq_self]
  classical
  refine h.down (fun p => s.sw.InVlan v (s.sw.owner p)) (fun p => ?_) fun p => ?_
  · rw [← coverage_update, ho]
  · simp only [h.countDown_apply hv hvl hlp, mem_ports_iff hvl]

end

def CountedAgain (sw : SwitchCfg type) (v : Vid) : Prop :=
  ∃ vlan, sw.vlans v = some vlan ∧ (∃ p ∈ vlan.ports, type p ≠ .other) ∧
    ∀ p ∈ vlan.ports, type p = .trunk → (sw.trunks p).isSome

theorem CountsMatch.enableVlan_again (h : CountsMatch s) (hv : s.cfg.vlans v = true)
    (hvl : s.sw.vlans v = some vlan) :
    RightCounts s.sw (Trap.enableVlan s.sw vlan v s.cfg).2 ↔ ¬CountedAgain s.sw v := by
  have hag : CountedAgain s.sw v ↔ (∃ p ∈ vlan.ports, type p ≠ .other) ∧
      ∀ p ∈ vlan.ports, type p = .trunk → (s.sw.trunks p).isSome :=
    ⟨fun ⟨vlan', hvl', hrs⟩ => mem_unique hvl hvl' ▸ hrs, fun hrs => ⟨vlan, hvl, hrs⟩⟩
  have hsm : update s.cfg.vlans v true = s.cfg.vlans := by rw [← hv, update_eq_self]
  rw [hag, ← foldlM_countUp_isSome_iff vlan.ports s.cfg.switch_port_control_count,
    ← VlanPorts.loop_eq]
  rcases hlp : vlan.loop (countUp s.sw) s.cfg.switch_port_control_count with _ | count'
  · simp only [Trap.enableVlan, hlp]
    exact iff_of_true h.counts (by simp)
  simp only [Trap.enableVlan, hlp, hsm, isSome_some, and_true]
  have ha := h.countUp_apply hvl hlp
  constructor
  · rintro hr ⟨p, hp, ht⟩
    have hne : (count' p).toNat = coverage s.cfg.vlans s.sw p := hr p ht
    have ho := owner_of_inVlan ((mem_ports_iff hvl).mp hp)
    rw [ha, ho, if_pos hp,
      toNat_add_one (by rw [h.counts p ht]; exact coverage_le ..), h.counts p ht] at hne
    omega
  · intro hn p hp
    have hou : s.sw.owner p ∉ vlan.ports :=
      fun hin => hn ⟨s.sw.owner p, hin, type_owner hp⟩
    show (count' p).toNat = _
    rw [ha, if_neg hou]
    exact h.counts p hp

/-! ## Events -/

theorem owner_of_trunks_eq (h : sw'.trunks = sw.trunks) (q : Port) : sw'.owner q = sw.owner q := by
  have hi (t p : Port) : sw'.InTrunk t p ↔ sw.InTrunk t p := by
    rw [InTrunk, h, InTrunk]
  rcases sw.owner_cases q with ⟨t, ht, ho⟩ | ⟨hno, ho⟩
  · rw [ho, owner_of_inTrunk ((hi t q).mpr ht)]
  · rw [ho, owner_of_not_inTrunk fun t ht => hno t ((hi t q).mp ht)]

theorem coverage_joins_vlan (hj : sw.Joins son sw' (.vlan v)) (vlans : Vid → Bool) (p : Port) :
    coverage vlans sw' p =
      coverage vlans sw p + if vlans v = true ∧ sw.owner p = son then 1 else 0 := by
  obtain ⟨hn, ht, hin⟩ := hj
  have how := owner_of_trunks_eq ht
  split_ifs with ha
  · obtain ⟨hv, ho⟩ := ha
    refine coverage_succ (v := v) (by simp [ho, hn]) fun v' => ?_
    rw [hin, how, ho]
    rcases eq_or_ne v' v with rfl | hne
    · simp [hv]
    · simp [hne]
  · rw [add_zero]
    refine coverage_congr fun v' => and_congr_right fun hv' => ?_
    rw [hin, how]
    refine or_iff_left ?_
    rintro ⟨rfl, ho⟩
    exact ha ⟨hv', ho⟩

theorem SwitchCfg.Joins.owner_son (hj : sw.Joins son sw' (.vlan v)) :
    sw.owner son = son ∧ sw'.owner son = son := by
  obtain ⟨-, ht, hin⟩ := hj
  have hso : sw'.owner son = son :=
    owner_of_inVlan (v := v) ((hin v son).mpr (Or.inr ⟨rfl, rfl⟩))
  exact ⟨(owner_of_trunks_eq ht son).symm.trans hso, hso⟩

theorem not_counted {vlans : Vid → Bool} (hsk : vlans v = false ∨ type son = .other) {p : Port}
    (hp : type p ≠ .other) : ¬(vlans v = true ∧ sw.owner p = son) := by
  rintro ⟨hv, ho⟩
  rcases hsk with hof | ht
  · rw [hof] at hv
    exact absurd hv (by decide)
  · exact type_owner hp (ho ▸ ht)

section

variable (h : CountsMatch s) {c : Prop} [Decidable c]
include h

theorem CountsMatch.joinVlan (hj : s.sw.Joins son sw' (.vlan v)) (hv : c → s.cfg.vlans v = true)
    (hsk : ¬c → s.cfg.vlans v = false ∨ type son = .other) :
    RightCounts sw' (if c then { s.cfg with
      switch_port_control_count := joinVlan sw' s.cfg.switch_port_control_count son }
      else s.cfg) := by
  have hc := coverage_joins_vlan hj s.cfg.vlans
  split_ifs with hcn
  · classical
    refine h.up (fun p => s.sw.owner p = son) (fun p => ?_) fun p => ?_
    · simp only [hc, hv hcn, true_and]
    · show Trap.joinVlan sw' s.cfg.switch_port_control_count son p = _
      rw [Trap.joinVlan, countUp, writePort_getD_apply hj.owner_son.2, owner_of_trunks_eq hj.2.1]
      split_ifs with ho
      · rw [← ho, h.ownerCounts p]
      · rfl
  · intro p hp
    rw [h.counts p hp, hc, if_neg (not_counted (hsk hcn) hp), add_zero]

theorem CountsMatch.leaveVlan (hlv : sw'.Joins son s.sw (.vlan v))
    (hv : c → s.cfg.vlans v = true) (hsk : ¬c → s.cfg.vlans v = false ∨ type son = .other) :
    RightCounts sw' (if c then { s.cfg with
      switch_port_control_count := leaveVlan sw' s.cfg.switch_port_control_count son }
      else s.cfg) := by
  have hc := coverage_joins_vlan hlv s.cfg.vlans
  split_ifs with hcn
  · classical
    refine h.down (fun p => sw'.owner p = son) (fun p => ?_) fun p => ?_
    · simp only [hc, hv hcn, true_and]
    · show Trap.leaveVlan sw' s.cfg.switch_port_control_count son p = _
      rw [Trap.leaveVlan, writePort_getD_apply hlv.owner_son.1]
      split_ifs with ho
      · rw [← h.ownerCounts p, owner_of_trunks_eq hlv.2.1, ho]
      · rfl
  · intro p hp
    rw [h.counts p hp, hc, if_neg (not_counted (hsk hcn) hp), add_zero]

end

theorem coverage_joins_trunk (hj : sw.Joins son sw' (.trunk t)) (vlans : Vid → Bool) :
    coverage vlans sw son = 0 ∧ coverage vlans sw' son = coverage vlans sw t ∧
      ∀ p ≠ son, coverage vlans sw' p = coverage vlans sw p := by
  obtain ⟨hn, hvl, hin⟩ := hj
  have hmb : sw'.InTrunk t son := (hin t son).mpr (Or.inr ⟨rfl, rfl⟩)
  have hv (v : Vid) (p : Port) : sw'.InVlan v p ↔ sw.InVlan v p := by
    rw [InVlan, hvl, InVlan]
  have hso : sw.owner son = son := by
    refine owner_of_not_inTrunk fun t' ht' => ?_
    have hsm := ((hin t' son).mpr (Or.inl ht')).unique hmb
    exact hn (hsm ▸ ht')
  have ho (p : Port) (hp : p ≠ son) : sw'.owner p = sw.owner p := by
    rcases sw.owner_cases p with ⟨t', ht', how⟩ | ⟨hno, how⟩
    · rw [how, owner_of_inTrunk ((hin t' p).mpr (.inl ht'))]
    rw [how]
    refine owner_of_not_inTrunk fun t' ht' => ?_
    rcases (hin t' p).mp ht' with hol | ⟨-, hnw⟩
    · exact hno t' hol
    · exact hp hnw
  have ht : t ≠ son := by
    rintro rfl
    exact not_inTrunk_self hmb
  have hse : sw'.owner t = t := by rw [← owner_of_inTrunk hmb, owner_owner]
  refine ⟨?_, ?_, ?_⟩
  · by_contra hne
    obtain ⟨v, -, hc⟩ := coverage_ne_zero_iff.mp hne
    rw [covers_iff, hso, ← hv] at hc
    exact hmb.not_inVlan hc
  · refine coverage_congr fun v => and_congr_right fun _ => ?_
    rw [hv, owner_of_inTrunk hmb, ← ho t ht, hse]
  · intro p hp
    refine coverage_congr fun v => and_congr_right fun _ => ?_
    rw [hv, ho p hp]

theorem eq_zero_of_not_pos {n : UInt16} (h : ¬0 < n) : n = 0 := by
  rw [UInt16.lt_iff_toNat_lt, UInt16.toNat_zero, pos_iff_ne_zero, not_not] at h
  exact UInt16.toNat_inj.mp h

section

variable (h : CountsMatch s) {c : Prop} [Decidable c]
include h

theorem CountsMatch.setSon {n : UInt16}
    (hrs : ∀ p ≠ son, coverage s.cfg.vlans sw' p = coverage s.cfg.vlans s.sw p)
    (hn : n.toNat = coverage s.cfg.vlans sw' son)
    (hcl : ¬c → s.cfg.switch_port_control_count son = n) :
    RightCounts sw' (if c then
      { s.cfg with switch_port_control_count := update s.cfg.switch_port_control_count son n }
      else s.cfg) := by
  have hr : RightCounts sw' { s.cfg with
      switch_port_control_count := update s.cfg.switch_port_control_count son n } := by
    intro p hp
    rcases eq_or_ne p son with rfl | hne
    · exact (congrArg UInt16.toNat (update_self ..)).trans hn
    · rw [hrs p hne, ← h.counts p hp]
      exact congrArg UInt16.toNat (update_of_ne hne ..)
  split_ifs with hc
  · exact hr
  · rwa [← hcl hc, update_eq_self] at hr

theorem CountsMatch.joinTrunk (hj : s.sw.Joins son sw' (.trunk t)) :
    RightCounts sw' (if type son = .eth ∧ 0 < s.cfg.switch_port_control_count t then
      { s.cfg with
        switch_port_control_count :=
          update s.cfg.switch_port_control_count son (s.cfg.switch_port_control_count t) }
      else s.cfg) := by
  obtain ⟨hz, htk, hrs⟩ := coverage_joins_trunk hj s.cfg.vlans
  have hmb : sw'.InTrunk t son := (hj.2.2 t son).mpr (Or.inr ⟨rfl, rfl⟩)
  have ht := h.counts t (by rw [hmb.type_trunk]; decide)
  refine h.setSon hrs (ht.trans htk.symm) fun hc => ?_
  rw [eq_zero_of_not_pos fun hp => hc ⟨hmb.type_member, hp⟩]
  exact UInt16.toNat_inj.mp ((h.counts son (by rw [hmb.type_member]; decide)).trans hz)

theorem CountsMatch.leaveTrunk (hlv : sw'.Joins son s.sw (.trunk t))
    (hcl : ¬c → s.cfg.switch_port_control_count t = 0) :
    RightCounts sw' (if c then
      { s.cfg with
        switch_port_control_count := update s.cfg.switch_port_control_count son 0 }
      else s.cfg) := by
  obtain ⟨hz, -, hrs⟩ := coverage_joins_trunk hlv s.cfg.vlans
  have hmb : s.sw.InTrunk t son := (hlv.2.2 t son).mpr (Or.inr ⟨rfl, rfl⟩)
  exact h.setSon (fun p hp => (hrs p hp).symm) hz.symm fun hc => (h.members t son hmb).trans (hcl hc)

end

/-! ## Runs -/

section

variable (h : CountsMatch s) {father : Father} {event : RelateEvent}
  (hr : s.sw.Reports father son event sw')
include h hr

theorem CountsMatch.npdDhcpSnpRelateEvent :
    RightCounts sw' (npdDhcpSnpRelateEvent sw' father son event s.cfg) := by
  rcases father with v | t <;> rcases event with _ | _
  · exact h.joinVlan hr id fun hv => .inl (Bool.not_eq_true _ ▸ hv)
  · exact h.leaveVlan hr id fun hv => .inl (Bool.not_eq_true _ ▸ hv)
  · exact h.joinTrunk hr
  · have hmb : s.sw.InTrunk t son := (hr.2.2 t son).mpr (Or.inr ⟨rfl, rfl⟩)
    exact h.leaveTrunk hr (absurd hmb.type_member)

theorem CountsMatch.npdArpsnpRelateEvent :
    RightCounts sw' (npdArpsnpRelateEvent sw' father son event s.cfg) := by
  have hsk (v : Vid) (hcn : ¬(type son ≠ .other ∧ s.cfg.vlans v = true)) :
      s.cfg.vlans v = false ∨ type son = .other := by
    rw [not_and_or, not_not, Bool.not_eq_true] at hcn
    exact hcn.symm
  rcases father with v | t <;> rcases event with _ | _
  · exact h.joinVlan hr And.right (hsk v)
  · exact h.leaveVlan hr And.right (hsk v)
  · exact h.joinTrunk hr
  · have hmb : s.sw.InTrunk t son := (hr.2.2 t son).mpr (Or.inr ⟨rfl, rfl⟩)
    exact h.leaveTrunk hr fun hc => eq_zero_of_not_pos fun hp => hc ⟨hmb.type_member, hp⟩

end

theorem CountsMatch.npdDhcpSnpVlanEnableSet (h : CountsMatch s) (is_enable : UInt8) (v : Vid) :
    RightCounts s.sw (npdDhcpSnpVlanEnableSet s.sw is_enable v s.cfg).2 := by
  unfold Trap.npdDhcpSnpVlanEnableSet
  rcases hvl : s.sw.vlans v with _ | vlan
  · split_ifs <;> exact h.counts
  split_ifs with ho hv hse hse
  · exact h.counts
  · exact h.disableVlan hv hvl
  · exact h.counts
  · exact h.enableVlan (Bool.not_eq_true _ ▸ hv) hvl
  · exact h.counts

theorem CountsMatch.setVlanEndis_iff (h : CountsMatch s) (endis : UInt8) (v : Vid) :
    RightCounts s.sw (npdArpInspectionSetVlanEndis s.sw endis v s.cfg).2 ↔
      ¬(2 ≤ endis ∧ s.cfg.vlans v = true ∧ CountedAgain s.sw v) := by
  unfold npdArpInspectionSetVlanEndis
  by_cases hsm : endis.toNat = (s.cfg.vlans v).toNat
  · rw [if_pos hsm]
    refine iff_of_true h.counts ?_
    rintro ⟨hle, hv, -⟩
    rw [UInt8.le_iff_toNat_le, hsm, hv] at hle
    exact absurd hle (by decide)
  rw [if_neg hsm]
  rcases hvl : s.sw.vlans v with _ | vlan
  · refine iff_of_true h.counts ?_
    rintro ⟨-, -, vlan, hvl', -⟩
    nomatch hvl.symm.trans hvl'
  dsimp only
  rcases hv : s.cfg.vlans v with _ | _ <;> rw [hv] at hsm
  · have hz : endis ≠ 0 := fun hz => hsm (by rw [hz]; rfl)
    rw [if_neg hz]
    exact iff_of_true (h.enableVlan hv hvl) (by simp)
  split_ifs with hz
  · refine iff_of_true (h.disableVlan hv hvl) ?_
    rintro ⟨hle, -⟩
    rw [hz] at hle
    exact absurd hle (by decide)
  · have hle : 2 ≤ endis := by
      have hp : endis.toNat ≠ 0 := fun h0 => hz (UInt8.toNat_inj.mp h0)
      rw [Bool.toNat_true] at hsm
      rw [UInt8.le_iff_toNat_le]
      show 2 ≤ endis.toNat
      omega
    rw [h.enableVlan_again hv hvl]
    simp [hle]

end

def NotAgain (s : TrapState type) (ev : TrapEvent) (_ : TrapState type) : Prop :=
  ∀ endis v, ev = .command endis v →
    ¬(2 ≤ endis ∧ s.cfg.vlans v = true ∧ CountedAgain s.sw v)

section

variable {s s' : TrapState type} {ev : TrapEvent}

section

variable (sw : SwitchCfg type)

@[simp]
theorem enableVlan_enable (vlan : VlanPorts) (v : Vid) (cfg : TrapCfg) :
    (enableVlan sw vlan v cfg).2.enable = cfg.enable := by
  unfold enableVlan
  split <;> rfl

@[simp]
theorem disableVlan_enable (vlan : VlanPorts) (v : Vid) (cfg : TrapCfg) :
    (disableVlan sw vlan v cfg).2.enable = cfg.enable := by
  unfold disableVlan
  split <;> rfl

theorem vlanEnableSet_enable (is_enable : UInt8) (v : Vid)
    (cfg : TrapCfg) : (npdDhcpSnpVlanEnableSet sw is_enable v cfg).2.enable = cfg.enable := by
  unfold npdDhcpSnpVlanEnableSet
  rcases sw.vlans v with _ | vlan
  · split_ifs <;> rfl
  · dsimp only
    split_ifs <;> simp

theorem setVlanEndis_enable (endis : UInt8) (v : Vid)
    (cfg : TrapCfg) : (npdArpInspectionSetVlanEndis sw endis v cfg).2.enable = cfg.enable := by
  unfold npdArpInspectionSetVlanEndis
  rcases sw.vlans v with _ | vlan
  · split_ifs <;> rfl
  · dsimp only
    split_ifs <;> simp

theorem relateEvent_enable (father : Father) (son : Port) (event : RelateEvent) (cfg : TrapCfg) :
    (npdDhcpSnpRelateEvent sw father son event cfg).enable = cfg.enable ∧
      (npdArpsnpRelateEvent sw father son event cfg).enable = cfg.enable := by
  rcases father with v | t <;> rcases event with _ | _ <;>
    simp only [npdDhcpSnpRelateEvent, npdArpsnpRelateEvent] <;>
    constructor <;> split_ifs <;> rfl

end

theorem CountsMatch.dhcpTrapStep (h : CountsMatch s) (hst : DhcpTrapStep s ev s') :
    CountsMatch s' := by
  obtain ⟨ht, hc⟩ := hst
  rcases ev with ⟨endis, v⟩ | ⟨father, son, event⟩
  · obtain ⟨hsw, hc⟩ := hc
    refine (h.iff_rightCounts ?_ ht).mpr ?_
    · rw [hc, vlanEnableSet_enable]
    · rw [hsw, hc]
      exact h.npdDhcpSnpVlanEnableSet endis v
  · obtain ⟨hr, hc⟩ := hc
    refine (h.iff_rightCounts ?_ ht).mpr ?_
    · rw [hc, (relateEvent_enable ..).1]
    · rw [hc]
      exact h.npdDhcpSnpRelateEvent hr

theorem CountsMatch.arpTrapStep_iff (h : CountsMatch s) (hst : ArpTrapStep s ev s') :
    CountsMatch s' ↔ NotAgain s ev s' := by
  obtain ⟨ht, hc⟩ := hst
  rcases ev with ⟨endis, v⟩ | ⟨father, son, event⟩
  · obtain ⟨hsw, hc⟩ := hc
    rw [h.iff_rightCounts (by rw [hc, setVlanEndis_enable]) ht, hsw, hc, h.setVlanEndis_iff]
    constructor
    · rintro hn endis' v' he
      cases he
      exact hn
    · exact fun hn => hn endis v rfl
  · obtain ⟨hr, hc⟩ := hc
    refine iff_of_true ((h.iff_rightCounts ?_ ht).mpr ?_) (fun _ _ he => nomatch he)
    · rw [hc, (relateEvent_enable ..).2]
    · rw [hc]
      exact h.npdArpsnpRelateEvent hr

end

/-- Along every trace of DHCP snooping from a state with the right counters the counters stay right.
A trace of ARP inspection keeps them right exactly when no command enables a VLAN a second time. -/
theorem countsMatch_along (type : Port → NetifType) :
    (∀ (s : TrapState type) (l : List (TrapEvent × TrapState type)), CountsMatch s →
      Along DhcpTrapStep s l → Along (fun _ _ s' => CountsMatch s') s l) ∧
    ∀ (s : TrapState type) (l : List (TrapEvent × TrapState type)), CountsMatch s →
      Along ArpTrapStep s l →
        (Along (fun _ _ s' => CountsMatch s') s l ↔ Along NotAgain s l) := by
  refine ⟨fun s l h htrace => ?_, fun s l h htrace => ?_⟩
  · exact along_of_invariant (fun s a s' hstep h => ⟨h.dhcpTrapStep hstep, h.dhcpTrapStep hstep⟩)
      htrace h
  · exact along_invariant_iff (fun s a s' hstep h => h.arpTrapStep_iff hstep) htrace h

def initialState (sw : SwitchCfg type) (enable : UInt32) : TrapState type where
  sw := sw
  cfg := { enable := enable, vlans := fun _ => false, switch_port_control_count := fun _ => 0 }
  traps := fun _ => false

theorem countsMatch_initialState (sw : SwitchCfg type) (enable : UInt32) :
    CountsMatch (initialState sw enable) where
  counts := by
    intro p hp
    symm
    by_contra hne
    obtain ⟨v, hv, -⟩ := coverage_ne_zero_iff.mp hne
    exact absurd hv (by simp [initialState])
  members := fun t p ht => rfl
  traps := by
    intro ho p hp
    simp [initialState]

def sampleType (p : Port) : NetifType := if p < 2 then .eth else .trunk

def sampleSwitch : SwitchCfg sampleType where
  vlans := fun v => if v = 10 then some ⟨[0], [2], by decide⟩ else none
  trunks := fun t => if t = 2 then some [1] else none
  trunk_type := by
    intro t ports h
    split_ifs at h with ht
    rw [ht]
    rfl
  member_type := by
    intro t ports h p hp
    split_ifs at h with ht
    cases h
    rw [List.mem_singleton.mp hp]
    rfl
  member_once := by
    intro t ports t' ports' h h' p hp hp'
    split_ifs at h h' with ht ht'
    rw [ht, ht']
  member_untied := by
    intro t ports v vlan h h' p hp
    split_ifs at h h'
    cases h
    cases h'
    rw [List.mem_singleton.mp hp]
    decide

def arpCommand (endis : UInt8) (v : Vid) (s : TrapState type) : TrapState type where
  sw := s.sw
  cfg := (npdArpInspectionSetVlanEndis s.sw endis v s.cfg).2
  traps := trapUpdate type (npdArpInspectionSetVlanEndis s.sw endis v s.cfg).2 s.cfg s.traps

/-- The switch after port 0 has left the VLAN. -/
def leftSwitch : SwitchCfg sampleType :=
  { sampleSwitch with
    vlans := fun v => if v = 10 then some ⟨[], [2], by decide⟩ else none
    member_untied := by
      intro t ports v vlan h h' p hp hme
      refine sampleSwitch.member_untied t ports 10 ⟨[0], [2], by decide⟩ h rfl p hp ?_
      split_ifs at h'
      cases h'
      exact mem_cons_of_mem 0 hme }

theorem leftSwitch_joins : leftSwitch.Joins 0 sampleSwitch (.vlan 10) := by
  refine ⟨?_, rfl, fun v p => ?_⟩
  · rintro ⟨vlan, h, hp⟩
    cases h
    exact absurd hp (by decide)
  · by_cases hv : v = 10
    · simp [InVlan, sampleSwitch, leftSwitch, hv, VlanPorts.ports, or_comm]
    · simp [InVlan, sampleSwitch, leftSwitch, hv]

def leaveState (s : TrapState sampleType) : TrapState sampleType where
  sw := leftSwitch
  cfg := npdArpsnpRelateEvent leftSwitch (.vlan 10) 0 .leave s.cfg
  traps := trapUpdate sampleType (npdArpsnpRelateEvent leftSwitch (.vlan 10) 0 .leave s.cfg) s.cfg
    s.traps

def sampleTrace : List (TrapEvent × TrapState sampleType) :=
  let enabled := arpCommand 1 10 (initialState sampleSwitch 1)
  [(.command 1 10, enabled), (.relate (.vlan 10) 0 .leave, leaveState enabled),
    (.command 0 10, arpCommand 0 10 (leaveState enabled))]

def againTrace : List (TrapEvent × TrapState sampleType) :=
  [(.command 1 10, arpCommand 1 10 (initialState sampleSwitch 1)),
    (.command 2 10, arpCommand 2 10 (arpCommand 1 10 (initialState sampleSwitch 1)))]

/-- The VLAN is enabled, a port leaves it, and it is disabled: the counters stay right. -/
theorem countsMatch_along_sample :
    Along (fun _ _ s' => CountsMatch s') (initialState sampleSwitch 1) sampleTrace := by
  refine ((countsMatch_along sampleType).2 (initialState sampleSwitch 1) sampleTrace
    (countsMatch_initialState sampleSwitch 1)
    ⟨⟨rfl, rfl, rfl⟩, ⟨rfl, leftSwitch_joins, rfl⟩, ⟨rfl, rfl, rfl⟩, trivial⟩).mpr
      ⟨?_, ?_, ?_, trivial⟩
  all_goals
    rintro endis v hev ⟨hle, -⟩
    cases hev <;> exact absurd hle (by decide)

/-- The counters are wrong when the VLAN is enabled again: the counter of the first port is two, and
one VLAN covers it. -/
theorem countsMatch_broken :
    CountsMatch (initialState sampleSwitch 1) ∧
    Along ArpTrapStep (initialState sampleSwitch 1) againTrace ∧
    ¬Along (fun _ _ s' => CountsMatch s') (initialState sampleSwitch 1) againTrace := by
  refine ⟨countsMatch_initialState sampleSwitch 1, ⟨⟨rfl, rfl, rfl⟩, ⟨rfl, rfl, rfl⟩, trivial⟩, ?_⟩
  rintro ⟨hfirst, hsecond, -⟩
  have hstep : ArpTrapStep (arpCommand 1 10 (initialState sampleSwitch 1)) (.command 2 10)
      (arpCommand 2 10 (arpCommand 1 10 (initialState sampleSwitch 1))) := ⟨rfl, rfl, rfl⟩
  have hagain : CountedAgain sampleSwitch 10 :=
    ⟨⟨[0], [2], by decide⟩, rfl, ⟨0, by decide, by decide⟩, by decide⟩
  exact (hfirst.arpTrapStep_iff hstep).mp hsecond 2 10 rfl ⟨by decide, rfl, hagain⟩

end Chanos.Trap

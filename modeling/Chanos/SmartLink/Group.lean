import Chanos.Lib.Trace
import Chanos.Netif.Index
import Chanos.Vlan.Bitmap

/-!
# The uplink of a smart-link group

A group of the smart-link daemon has two member ports, of which one carries the traffic
(`master_port`) and the other stands by (`slave_port`). The handlers of the link and interface
events and the commands keep the two in step with the states of the members, except in three kinds
of steps (`liveUplink_iff`).
-/

namespace Chanos.SmartLink

open Lib Netif Vlan

inductive PortStatus
  | down
  | up
  deriving DecidableEq

structure Group where
  id : UInt32
  is_enable : UInt32
  is_preempt : UInt32
  mst_instance : UInt32
  master_port : UInt32
  slave_port : UInt32
  master_index : UInt32
  master_status : PortStatus
  slave_index : UInt32
  slave_status : PortStatus
  data_vlan : Vbmp

variable (entry : Group)

/-! ## Events -/

variable (netif_index : UInt32)

@[grind =]
def Group.Member : Prop :=
  netif_index = entry.master_index ∨ netif_index = entry.slave_index

instance (netif_index : UInt32) : Decidable (entry.Member netif_index) :=
  inferInstanceAs (Decidable (_ ∨ _))

@[grind =]
def smartLinkAppEventLinkup : Group :=
  if entry.Member netif_index then
    match entry.master_status, entry.slave_status with
    | .down, .down =>
      if netif_index = entry.master_index then
        { entry with master_status := .up, master_port := netif_index }
      else { entry with slave_status := .up, master_port := netif_index }
    | .up, .down =>
      if netif_index = entry.slave_index then
        { entry with slave_port := netif_index, slave_status := .up }
      else entry
    | .down, .up =>
      if netif_index = entry.master_index then
        if entry.is_preempt ≠ 0 then
          { entry with
            master_status := .up, master_port := entry.master_index
            slave_port := entry.slave_index }
        else { entry with master_status := .up, slave_port := netif_index }
      else entry
    | .up, .up => entry
  else entry

@[grind =]
def linkdownMember : Group :=
  match entry.master_status, entry.slave_status with
  | .up, .up =>
    if netif_index = entry.master_port then
      if entry.master_port = entry.master_index then
        { entry with master_status := .down, master_port := entry.slave_index }
      else { entry with slave_status := .down, master_port := entry.master_index }
    else if netif_index = entry.master_index then { entry with master_status := .down }
    else { entry with slave_status := .down }
  | .down, .up =>
    if netif_index = entry.slave_index then { entry with master_port := 0, slave_status := .down }
    else entry
  | .up, .down =>
    if netif_index = entry.master_index then { entry with master_port := 0, master_status := .down }
    else entry
  | .down, .down => entry

@[grind =]
def smartLinkAppEventLinkdown : Group :=
  if entry.Member netif_index then { linkdownMember entry netif_index with slave_port := 0 }
  else entry

def EthOrTrunk : Prop :=
  npdNetifTypeGet netif_index = NetifType.eth.code ∨
    npdNetifTypeGet netif_index = NetifType.trunk.code

instance (netif_index : UInt32) : Decidable (EthOrTrunk netif_index) :=
  inferInstanceAs (Decidable (_ ∨ _))

@[grind =]
def l2deleteMember : Group :=
  if netif_index = entry.master_port then
    if entry.master_port = entry.master_index then
      let entry' := { entry with master_status := .down, master_index := 0 }
      if entry.slave_status = .up ∧ entry.slave_index ≠ 0 then
        { entry' with master_port := entry.slave_index }
      else entry'
    else
      let entry' := { entry with slave_status := .down, slave_index := 0 }
      if entry.master_status = .up ∧ entry.master_index ≠ 0 then
        { entry' with master_port := entry.master_index }
      else entry'
  else if netif_index = entry.master_index then
    { entry with master_status := .down, master_index := 0 }
  else { entry with slave_status := .down, slave_index := 0 }

@[grind =]
def smartLinkAppEventL2delete : Group :=
  if EthOrTrunk netif_index ∧ entry.Member netif_index then
    { l2deleteMember entry netif_index with slave_port := 0 }
  else entry

def Group.Switches (netif_index son_netif_index : UInt32) : Prop :=
  (npdNetifTypeGet netif_index = NetifType.vlan.code ∧ EthOrTrunk son_netif_index) ∧
    entry.Member son_netif_index ∧ npdNetifVlanGetVid netif_index ∈ entry.data_vlan.vlans ∧
    son_netif_index = entry.master_port ∧ entry.slave_status = .up ∧ entry.slave_index ≠ 0

instance (netif_index son_netif_index : UInt32) :
    Decidable (entry.Switches netif_index son_netif_index) :=
  inferInstanceAs (Decidable (_ ∧ _))

@[grind =]
def smartLinkAppRelateEventLeave (netif_index son_netif_index : UInt32) : Group :=
  if entry.Switches netif_index son_netif_index then
    { entry with
      slave_port := entry.master_port
      master_port :=
        if entry.master_port = entry.master_index then entry.slave_index else entry.master_index }
  else entry

/-! ## Commands -/

@[grind =]
def Group.choosePorts : Group :=
  if entry.master_status = .up then
    let entry' := { entry with master_port := entry.master_index }
    if entry.slave_status = .up then { entry' with slave_port := entry.slave_index } else entry'
  else if entry.slave_status = .up then
    { entry with master_port := entry.slave_index, slave_port := 0 }
  else entry

@[grind =]
def Group.Incomplete : Prop :=
  entry.master_index = 0 ∧ entry.slave_index = 0 ∨ entry.mst_instance = 0

instance : Decidable entry.Incomplete := inferInstanceAs (Decidable (_ ∨ _))

@[grind =]
def smartLinkEnable (is_enable : UInt32) : Group :=
  if entry.Incomplete ∨ entry.is_enable = is_enable then entry
  else
    let entry' := { entry with is_enable }
    if is_enable ≠ 0 then entry'.choosePorts else entry'

@[grind =]
def smartLinkPreempt (is_enable : UInt32) : Group :=
  let entry' := { entry with is_preempt := is_enable }
  if is_enable ≠ 0 ∧ entry.master_index ≠ 0 ∧ entry.slave_index ≠ 0 ∧ entry.mst_instance ≠ 0 then
    entry'.choosePorts
  else entry'

@[grind =]
def smartLinkPort (netif_m_idx : UInt32) (netif_m_status : PortStatus) (netif_s_idx : UInt32)
    (netif_s_status : PortStatus) : Group :=
  if entry.is_enable ≠ 0 then entry
  else
    { entry with
      master_index := netif_m_idx, master_status := netif_m_status, slave_index := netif_s_idx
      slave_status := netif_s_status, master_port := netif_m_idx }

/-! ## Runs -/

def Group.MasterUp : Prop := entry.master_index ≠ 0 ∧ entry.master_status = .up

def Group.SlaveUp : Prop := entry.slave_index ≠ 0 ∧ entry.slave_status = .up

@[mk_iff] structure Group.Live (switched : Bool) : Prop where
  up : entry.MasterUp ∨ entry.SlaveUp →
    entry.MasterUp ∧ entry.master_port = entry.master_index ∨
      entry.SlaveUp ∧ entry.master_port = entry.slave_index
  down : ¬entry.MasterUp → ¬entry.SlaveUp → entry.master_port = 0
  standby : entry.MasterUp → entry.SlaveUp →
    entry.master_port = entry.master_index ∧ entry.slave_port = entry.slave_index ∨
      entry.master_port = entry.slave_index ∧ entry.slave_port = entry.master_index
  preempt : entry.MasterUp → entry.SlaveUp → entry.is_preempt ≠ 0 → switched = false →
    entry.master_port = entry.master_index

structure Group.Formed : Prop where
  master : entry.master_index = 0 → entry.master_status = .down
  slave : entry.slave_index = 0 → entry.slave_status = .down
  mst_instance : entry.is_enable ≠ 0 → entry.mst_instance ≠ 0

structure GroupState where
  entry : Group
  switched : Bool

inductive GroupEvent
  | linkup (netif_index : UInt32)
  | linkdown (netif_index : UInt32)
  | l2delete (netif_index : UInt32)
  | leave (netif_index son_netif_index : UInt32)
  | enable (is_enable : UInt32)
  | preempt (is_enable : UInt32)
  | port (netif_m_idx : UInt32) (netif_m_status : PortStatus) (netif_s_idx : UInt32)
      (netif_s_status : PortStatus)

variable (s : GroupState)

@[grind =]
def GroupState.step : GroupEvent → GroupState
  | .linkup i => { s with entry := smartLinkAppEventLinkup s.entry i }
  | .linkdown i => { s with entry := smartLinkAppEventLinkdown s.entry i }
  | .l2delete i => { s with entry := smartLinkAppEventL2delete s.entry i }
  | .leave i son =>
    ⟨smartLinkAppRelateEventLeave s.entry i son, s.switched || decide (s.entry.Switches i son)⟩
  | .enable v => { s with entry := smartLinkEnable s.entry v }
  | .preempt v => { s with entry := smartLinkPreempt s.entry v }
  | .port m ms sl ss => { s with entry := smartLinkPort s.entry m ms sl ss }

@[grind =]
def GroupEvent.Real : GroupEvent → Prop
  | .linkup i => i ≠ 0
  | .port m ms sl ss => (m = 0 → ms = .down) ∧ (sl = 0 → ss = .down)
  | _ => True

def GroupStep (e : GroupEvent) (s' : GroupState) : Prop := e.Real ∧ s' = s.step e

def GroupState.UsesLive : Prop := s.entry.is_enable ≠ 0 → s.entry.Live s.switched

def Group.OtherUp : Prop :=
  if entry.master_port = entry.master_index then entry.SlaveUp else entry.MasterUp

/-- What is not done to a group: to delete the active port of an enabled group or to take a VLAN of
the group from it while the other member is down, and to enable a group with a stale active port
while both members are down. -/
def GroupState.Spares : GroupEvent → Prop
  | .l2delete i => s.entry.is_enable ≠ 0 → EthOrTrunk i → s.entry.Member i →
    i = s.entry.master_port → s.entry.OtherUp
  | .leave i son => s.entry.is_enable ≠ 0 → s.entry.Switches i son → s.entry.OtherUp
  | .enable v => v ≠ 0 → s.entry.is_enable = 0 → ¬s.entry.Incomplete →
    s.entry.MasterUp ∨ s.entry.SlaveUp ∨ s.entry.master_port = 0
  | _ => True

section

variable {entry} {switched : Bool} {i : UInt32}

/-- The members that are up are the active and the standby port. -/
@[grind =]
def Group.Picks (entry : Group) : Prop :=
  match entry.master_status, entry.slave_status with
  | .up, .up =>
    entry.master_port = entry.master_index ∧ entry.slave_port = entry.slave_index ∨
      entry.master_port = entry.slave_index ∧ entry.slave_port = entry.master_index
  | .up, .down => entry.master_port = entry.master_index
  | .down, .up => entry.master_port = entry.slave_index
  | .down, .down => True

/-- Besides, the master preempts, and there is no active port while both members are down. -/
@[grind =]
def Group.Uses (entry : Group) (switched : Bool) : Prop :=
  entry.Picks ∧
    match entry.master_status, entry.slave_status with
    | .up, .up => entry.is_preempt ≠ 0 → switched = false → entry.master_port = entry.master_index
    | .down, .down => entry.master_port = 0
    | _, _ => True

theorem Group.Formed.masterUp_iff (h : entry.Formed) : entry.MasterUp ↔ entry.master_status = .up :=
  ⟨And.right, fun hup => ⟨fun h0 => by simp [h.master h0] at hup, hup⟩⟩

theorem Group.Formed.slaveUp_iff (h : entry.Formed) : entry.SlaveUp ↔ entry.slave_status = .up :=
  ⟨And.right, fun hup => ⟨fun h0 => by simp [h.slave h0] at hup, hup⟩⟩

theorem Group.Formed.live_iff (h : entry.Formed) : entry.Live switched ↔ entry.Uses switched := by
  rw [Group.live_iff, h.masterUp_iff, h.slaveUp_iff, Group.Uses, Group.Picks]
  cases entry.master_status <;> cases entry.slave_status <;> grind

theorem ne_zero_of_ethOrTrunk (h : EthOrTrunk i) : i ≠ 0 := by
  rintro rfl
  exact absurd h (by decide)

namespace Group

theorem Formed.step {s : GroupState} (h : s.entry.Formed) (e : GroupEvent) (he : e.Real) :
    (s.step e).entry.Formed := by
  obtain ⟨⟨id, en, pre, inst, mp, sp, mi, ms, si, ss, dv⟩, sw⟩ := s
  obtain ⟨hm, hs, hi⟩ := h
  cases e with
  | linkup i | linkdown i => cases ms <;> cases ss <;> constructor <;> grind
  | _ => constructor <;> grind

section

variable (h : entry.Uses switched)
include h

theorem Uses.linkup :
    (smartLinkAppEventLinkup entry i).Uses switched := by
  unfold smartLinkAppEventLinkup
  cases hms : entry.master_status <;> cases hss : entry.slave_status <;> grind

theorem Uses.linkdown :
    (smartLinkAppEventLinkdown entry i).Uses switched := by
  unfold smartLinkAppEventLinkdown linkdownMember
  cases hms : entry.master_status <;> cases hss : entry.slave_status <;> grind

theorem Uses.l2delete_iff (hf : entry.Formed) :
    (smartLinkAppEventL2delete entry i).Uses switched ↔
      (EthOrTrunk i → entry.Member i → i = entry.master_port → entry.OtherUp) := by
  obtain ⟨hm, hs, -⟩ := hf
  unfold OtherUp MasterUp SlaveUp
  have hne := @ne_zero_of_ethOrTrunk i
  unfold smartLinkAppEventL2delete l2deleteMember
  cases hms : entry.master_status <;> cases hss : entry.slave_status <;> grind

theorem Uses.leave_iff {son : UInt32} (hf : entry.Formed) :
    (smartLinkAppRelateEventLeave entry i son).Uses (switched || decide (entry.Switches i son)) ↔
      (entry.Switches i son → entry.OtherUp) := by
  unfold smartLinkAppRelateEventLeave OtherUp MasterUp SlaveUp
  by_cases hsw : entry.Switches i son
  · have hmb := hsw.2.1
    obtain ⟨hso, hsl⟩ := hsw.2.2.2
    obtain ⟨hm, hs, -⟩ := hf
    rw [if_pos hsw, decide_eq_true hsw, Bool.or_true]
    cases hms : entry.master_status <;> cases hss : entry.slave_status <;> grind
  · simpa [hsw] using h

end

theorem uses_choosePorts (hup : entry.master_status = .up ∨ entry.slave_status = .up) :
    entry.choosePorts.Uses switched := by
  cases hms : entry.master_status <;> cases hss : entry.slave_status <;>
    simp_all [choosePorts, Uses, Picks]

theorem uses_enable_iff {v : UInt32} (hf : entry.Formed) (hv : v ≠ 0)
    (hcmp : ¬entry.Incomplete) (hne : entry.is_enable ≠ v) :
    (smartLinkEnable entry v).Uses switched ↔
      entry.MasterUp ∨ entry.SlaveUp ∨ entry.master_port = 0 := by
  rw [smartLinkEnable, if_neg (not_or_intro hcmp hne), hf.masterUp_iff, hf.slaveUp_iff]
  rw [if_pos hv]
  by_cases hup : entry.master_status = .up ∨ entry.slave_status = .up
  · exact iff_of_true (uses_choosePorts hup) (hup.imp_right Or.inl)
  · cases hms : entry.master_status <;> cases hss : entry.slave_status <;>
      simp_all [choosePorts, Uses, Picks]

theorem Uses.smartLinkPreempt {v : UInt32} (h : entry.Uses switched) (hf : entry.Formed)
    (hi : entry.mst_instance ≠ 0) : (smartLinkPreempt entry v).Uses switched := by
  obtain ⟨hm, hs, -⟩ := hf
  unfold SmartLink.smartLinkPreempt choosePorts
  cases hms : entry.master_status <;> cases hss : entry.slave_status <;> grind

end Group

theorem GroupState.is_enable_step (s : GroupState) {e : GroupEvent} (he : ∀ v, e ≠ .enable v) :
    (s.step e).entry.is_enable = s.entry.is_enable := by
  cases e with
  | enable v => exact absurd rfl (he v)
  | _ => grind

theorem GroupState.usesLive_step_iff {s : GroupState} {e : GroupEvent} (h : s.UsesLive)
    (hf : s.entry.Formed) (he : e.Real) : (s.step e).UsesLive ↔ s.Spares e := by
  have hst : (s.step e).UsesLive ↔
      ((s.step e).entry.is_enable ≠ 0 → (s.step e).entry.Uses (s.step e).switched) :=
    imp_congr_right fun _ => (hf.step e he).live_iff
  rw [hst]
  by_cases hea : ∃ v, e = .enable v
  · obtain ⟨v, rfl⟩ := hea
    by_cases hkp : s.entry.Incomplete ∨ s.entry.is_enable = v
    · have hsm : (s.step (.enable v)).entry = s.entry := if_pos hkp
      rw [hsm]
      refine iff_of_true (fun hen => hf.live_iff.mp (h hen)) fun hv h0 hcmp => ?_
      exact absurd ((hkp.resolve_left hcmp).symm.trans h0) hv
    · obtain ⟨hcmp, hne⟩ := not_or.mp hkp
      have hen : (s.step (.enable v)).entry.is_enable = v := by
        grind
      rw [hen]
      have hi : v ≠ 0 → ((s.step (.enable v)).entry.Uses s.switched ↔ _) := fun hv =>
        Group.uses_enable_iff hf hv hcmp hne
      refine (imp_congr_right hi).trans (imp_congr_right fun hv => ?_)
      refine ⟨fun hup _ _ => hup, fun hup => ?_⟩
      by_cases h0 : s.entry.is_enable = 0
      · exact hup h0 hcmp
      by_cases hm : s.entry.MasterUp
      · exact Or.inl hm
      · by_cases hs : s.entry.SlaveUp
        · exact Or.inr (Or.inl hs)
        · exact Or.inr (Or.inr ((h h0).down hm hs))
  · have hen := s.is_enable_step (not_exists.mp hea)
    rw [hen]
    by_cases h0 : s.entry.is_enable = 0
    · cases e <;> simp_all [GroupState.Spares]
    have hu := hf.live_iff.mp (h h0)
    cases e with
    | linkup i => exact iff_of_true (fun _ => hu.linkup) trivial
    | linkdown i => exact iff_of_true (fun _ => hu.linkdown) trivial
    | l2delete i => exact imp_congr_right fun _ => hu.l2delete_iff hf
    | leave i son => exact imp_congr_right fun _ => hu.leave_iff hf
    | enable v => exact absurd ⟨v, rfl⟩ hea
    | preempt v =>
      exact iff_of_true (fun _ => hu.smartLinkPreempt hf (hf.mst_instance h0)) trivial
    | port m ms sl ss =>
      have hsm : (s.step (.port m ms sl ss)).entry = s.entry := if_pos h0
      exact iff_of_true (fun _ => hsm ▸ hu) trivial

end

/-- **In which runs a group always uses a live uplink.** -/
theorem liveUplink_iff {s : GroupState} {tr : List (GroupEvent × GroupState)}
    (hrun : Along GroupStep s tr) (hformed : s.entry.Formed) (hlive : s.UsesLive) :
    Along (fun _ _ s' => s'.UsesLive) s tr ↔ Along (fun s e _ => s.Spares e) s tr := by
  have hsteps : ∀ s e s', GroupStep s e s' → s.entry.Formed ∧ s.UsesLive →
      (s'.UsesLive ↔ s.Spares e) ∧ (s.Spares e → s'.entry.Formed ∧ s'.UsesLive) := by
    rintro s e _ ⟨he, rfl⟩ ⟨hformed, hlive⟩
    have hiff := GroupState.usesLive_step_iff hlive hformed he
    exact ⟨hiff, fun hspares => ⟨hformed.step e he, hiff.mpr hspares⟩⟩
  exact along_step_iff_of_invariant hsteps hrun ⟨hformed, hlive⟩

def masterOnly : GroupState :=
  ⟨⟨1, 1, 0, 1, 0x20004000, 0, 0x20004000, .up, 0x20008000, .down, .clear⟩, false⟩

theorem masterOnly_formed : masterOnly.entry.Formed := by
  constructor <;> decide

theorem masterOnly_usesLive : masterOnly.UsesLive := fun _ =>
  masterOnly_formed.live_iff.mpr ⟨rfl, trivial⟩

def takeover : List (GroupEvent × GroupState) :=
  [(.linkup 0x20008000, masterOnly.step (.linkup 0x20008000)),
    (.l2delete 0x20004000, (masterOnly.step (.linkup 0x20008000)).step (.l2delete 0x20004000))]

/-- The slave port comes up and takes over when the master port is deleted. -/
theorem liveUplink_takeover : Along (fun _ _ s' => s'.UsesLive) masterOnly takeover := by
  have hrun : Along GroupStep masterOnly takeover :=
    ⟨⟨(by decide : (0x20008000 : UInt32) ≠ 0), rfl⟩, ⟨trivial, rfl⟩, trivial⟩
  have hspares : Along (fun s e _ => s.Spares e) masterOnly takeover :=
    ⟨trivial, fun _ _ _ _ => ⟨by decide, rfl⟩, trivial⟩
  exact (liveUplink_iff hrun masterOnly_formed masterOnly_usesLive).mpr hspares

/-- A port that is deleted while it is the only one that is up stays the active port. -/
theorem liveUplink_deleted :
    GroupStep masterOnly (.l2delete 0x20004000) (masterOnly.step (.l2delete 0x20004000)) ∧
      masterOnly.entry.Formed ∧ masterOnly.UsesLive ∧
      ¬(masterOnly.step (.l2delete 0x20004000)).UsesLive := by
  refine ⟨⟨trivial, rfl⟩, masterOnly_formed, masterOnly_usesLive, fun h => ?_⟩
  have hstale : (0x20004000 : UInt32) = 0 :=
    (masterOnly_formed.step (.l2delete 0x20004000) trivial).live_iff.mp (h (by decide)) |>.2
  exact absurd hstale (by decide)

end Chanos.SmartLink

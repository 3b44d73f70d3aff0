import Chanos.SmartLink.Group

/-!
# The spanning tree states of a smart-link group

The smart-link daemon tells the switch process what changed in a group (`smartLinkHandleUpdate`),
and the switch process sets the spanning tree states of the ports (`npdSmartLinkMsgHandler`). A
group is taken out of service by `~0UL` in `back_id`, a field of 32 bits as wide as the
`unsigned long` of the switch. Once all the messages are handled, the states follow the group
(`statesFollow_run`).
-/

namespace Chanos.SmartLink

open Lib List Option

structure SmartLinkMsg where
  block_port : UInt32
  unblock_port : UInt32
  mst_instance : UInt32
  back_id : UInt32

def smartLinkHandleUpdate (is_active_master_board : Bool) (new old : Group) : List SmartLinkMsg :=
  if is_active_master_board then
    if new.is_enable ≠ old.is_enable then
      if new.is_enable ≠ 0 then [⟨new.slave_port, new.master_port, new.mst_instance, new.id⟩]
      else [⟨old.slave_index, old.master_index, old.mst_instance, 0xFFFFFFFF⟩]
    else if new.is_enable ≠ 0 then
      if new.master_port ≠ old.master_port then
        [⟨new.slave_port, new.master_port, new.mst_instance, new.id⟩]
      else if new.slave_port ≠ old.slave_port then
        if new.slave_index ≠ 0 then [⟨new.slave_port, 0, new.mst_instance, 0⟩] else []
      else []
    else []
  else []

inductive StpState
  | disable
  | discard
  | learn
  | forward
  deriving DecidableEq

structure StpInfo where
  smartlink_flag : UInt32
  state : StpState

abbrev PortsStp : Type := UInt32 → UInt32 → Option StpInfo

def PortsStp.set (ports_stp : PortsStp) (port_index mstid : UInt32) (info : StpInfo) : PortsStp :=
  fun p m =>
    if p = port_index ∧ m = mstid then (ports_stp p m).map fun _ => info else ports_stp p m

def npdSmartLinkStpFlag (ports_stp : PortsStp) (netif_index mstid is_enable : UInt32)
    (stp_port_status : StpState) : PortsStp :=
  (ports_stp.set netif_index mstid ⟨is_enable, stp_port_status⟩).set netif_index 0
    ⟨is_enable, stp_port_status⟩

def npdSmartLinkMsgHandler (ports_stp : PortsStp) (data : SmartLinkMsg) : PortsStp :=
  if data.back_id ≠ 0xFFFFFFFF then
    let blocked :=
      if data.block_port ≠ 0 ∧ data.mst_instance ≠ 0 then
        npdSmartLinkStpFlag ports_stp data.block_port data.mst_instance 1 .discard
      else ports_stp
    if data.unblock_port ≠ 0 ∧ data.mst_instance ≠ 0 then
      npdSmartLinkStpFlag blocked data.unblock_port data.mst_instance 1 .forward
    else blocked
  else
    npdSmartLinkStpFlag
      (npdSmartLinkStpFlag ports_stp data.block_port data.mst_instance 0 .forward)
      data.unblock_port data.mst_instance 0 .forward

structure LinkSystem where
  entry : Group
  pending : List SmartLinkMsg
  ports_stp : PortsStp
  served : Bool

open LinkSystem

inductive LinkEvent
  | linkup (netif_index : UInt32)
  | linkdown (netif_index : UInt32)
  | enable (is_enable : UInt32)
  | preempt (is_enable : UInt32)
  | deliver

def LinkSystem.update (s : LinkSystem) (new : Group) : LinkSystem :=
  { s with entry := new, pending := s.pending ++ smartLinkHandleUpdate true new s.entry }

def LinkSystem.step (s : LinkSystem) : LinkEvent → LinkSystem
  | .linkup i => s.update (smartLinkAppEventLinkup s.entry i)
  | .linkdown i => s.update (smartLinkAppEventLinkdown s.entry i)
  | .enable v =>
    let new := smartLinkEnable s.entry v
    { s.update new with served := s.served || new.is_enable != 0 }
  | .preempt v => s.update (smartLinkPreempt s.entry v)
  | .deliver =>
    match s.pending with
    | [] => s
    | data :: pending =>
      { s with pending, ports_stp := npdSmartLinkMsgHandler s.ports_stp data }

def Shows (ports_stp : PortsStp) (mstid p : UInt32) (state : StpState) : Prop :=
  ∀ info, ports_stp p mstid = some info → info.state = state

/-- The STP states of the ports follow the group. -/
structure StatesFollow (ports_stp : PortsStp) (entry : Group) (served : Bool) : Prop where
  active : entry.is_enable ≠ 0 → entry.master_port ≠ 0 →
    Shows ports_stp entry.mst_instance entry.master_port .forward
  standby : entry.is_enable ≠ 0 → entry.MasterUp → entry.SlaveUp → ∀ p, entry.Member p →
    p ≠ entry.master_port → Shows ports_stp entry.mst_instance p .discard
  retired : entry.is_enable = 0 → served = true → ∀ p, entry.Member p → p ≠ 0 → ∀ info,
    ports_stp p entry.mst_instance = some info → info.state = .forward ∧ info.smartlink_flag = 0

/-- A group with an instance that is out of service, with two different members. -/
structure LinkSystem.Start (s : LinkSystem) : Prop where
  formed : s.entry.Formed
  distinct : s.entry.master_index = s.entry.slave_index → s.entry.master_index = 0
  mst_instance : s.entry.mst_instance ≠ 0
  id_ne : s.entry.id ≠ 0xFFFFFFFF
  is_enable : s.entry.is_enable = 0
  pending : s.pending = []
  served : s.served = false

def LinkEvent.Real : LinkEvent → Prop
  | .linkup i => i ≠ 0
  | _ => True

/-! ## What a message does -/

section

variable {ports_stp : PortsStp} {q p mstid e : UInt32} {state : StpState}

theorem stpFlag_apply (hne : mstid ≠ 0) :
    npdSmartLinkStpFlag ports_stp p mstid e state q mstid =
      if q = p then (ports_stp q mstid).map fun _ => ⟨e, state⟩ else ports_stp q mstid := by
  simp [npdSmartLinkStpFlag, PortsStp.set, hne]

theorem ite_stpFlag_apply (hne : mstid ≠ 0) :
    (if p ≠ 0 ∧ mstid ≠ 0 then npdSmartLinkStpFlag ports_stp p mstid e state else ports_stp) q mstid =
      if q = p ∧ q ≠ 0 then (ports_stp q mstid).map fun _ => ⟨e, state⟩ else ports_stp q mstid := by
  by_cases hp : p = 0
  · rw [if_neg fun h => h.1 hp, if_neg fun h => h.2 (h.1.trans hp)]
  · rw [if_pos ⟨hp, hne⟩, stpFlag_apply hne]
    exact ite_congr (propext ⟨fun h => ⟨h, h ▸ hp⟩, And.left⟩) (fun _ => rfl) fun _ => rfl

theorem msgHandler_apply {data : SmartLinkMsg} (hne : data.mst_instance ≠ 0)
    (hb : data.back_id ≠ 0xFFFFFFFF) :
    npdSmartLinkMsgHandler ports_stp data q data.mst_instance =
      if q = data.unblock_port ∧ q ≠ 0 then
        (ports_stp q data.mst_instance).map fun _ => ⟨1, .forward⟩
      else if q = data.block_port ∧ q ≠ 0 then
        (ports_stp q data.mst_instance).map fun _ => ⟨1, .discard⟩
      else ports_stp q data.mst_instance := by
  rw [npdSmartLinkMsgHandler, if_pos hb]
  rw [ite_stpFlag_apply hne, ite_stpFlag_apply hne]
  cases ports_stp q data.mst_instance <;> split_ifs <;> rfl

theorem msgHandler_retire {b u : UInt32} (hne : mstid ≠ 0) :
    npdSmartLinkMsgHandler ports_stp ⟨b, u, mstid, 0xFFFFFFFF⟩ q mstid =
      if q = u ∨ q = b then (ports_stp q mstid).map fun _ => ⟨0, .forward⟩
      else ports_stp q mstid := by
  rw [npdSmartLinkMsgHandler, if_neg (not_not.mpr rfl)]
  rw [stpFlag_apply hne, stpFlag_apply hne]
  cases ports_stp q mstid <;> grind

section

variable {b u id : UInt32} (hne : mstid ≠ 0) (hid : id ≠ 0xFFFFFFFF)
include hne hid

theorem shows_unblock (hu : u ≠ 0) :
    Shows (npdSmartLinkMsgHandler ports_stp ⟨b, u, mstid, id⟩) mstid u .forward := by
  intro info hi
  rw [msgHandler_apply hne hid, if_pos ⟨rfl, hu⟩] at hi
  obtain ⟨-, -, rfl⟩ := map_eq_some_iff.mp hi
  rfl

theorem shows_block (hb : b ≠ 0) (hbu : b ≠ u) :
    Shows (npdSmartLinkMsgHandler ports_stp ⟨b, u, mstid, id⟩) mstid b .discard := by
  intro info hi
  rw [msgHandler_apply hne hid, if_neg fun h => hbu h.1,
    if_pos ⟨rfl, hb⟩] at hi
  obtain ⟨-, -, rfl⟩ := map_eq_some_iff.mp hi
  rfl

theorem Shows.of_ne (h : Shows ports_stp mstid q state) (hu : u = 0) (hb : q ≠ b) :
    Shows (npdSmartLinkMsgHandler ports_stp ⟨b, u, mstid, id⟩) mstid q state := by
  intro info hi
  rw [msgHandler_apply hne hid,
    if_neg fun h => h.2 (h.1.trans hu), if_neg fun h => hb h.1] at hi
  exact h info hi

end

end

/-! ## Following the group -/

section

variable {ports_stp : PortsStp} {entry new old : Group}

structure Follow (ports_stp : PortsStp) (entry : Group) : Prop where
  active : entry.master_port ≠ 0 → Shows ports_stp entry.mst_instance entry.master_port .forward
  standby : entry.slave_port ≠ 0 → entry.slave_port ≠ entry.master_port →
    Shows ports_stp entry.mst_instance entry.slave_port .discard

structure Group.Turns (old new : Group) : Prop where
  id : new.id = old.id
  mst_instance : new.mst_instance = old.mst_instance
  master_index : new.master_index = old.master_index
  slave_index : new.slave_index = old.slave_index
  picks : new.is_enable ≠ 0 → (old.is_enable ≠ 0 → old.Picks) → new.Picks
  standby : (old.is_enable ≠ 0 → old.Picks) → new.is_enable ≠ 0 → new.is_enable = old.is_enable →
    new.slave_port ≠ old.slave_port → new.slave_port ≠ 0 →
    new.slave_index ≠ 0 ∧ new.slave_port ≠ new.master_port

theorem follow_update (ht : old.Turns new) (hp : old.is_enable ≠ 0 → old.Picks)
    (hi : old.mst_instance ≠ 0) (hid : old.id ≠ 0xFFFFFFFF)
    (h : old.is_enable ≠ 0 → Follow ports_stp old) (he : new.is_enable ≠ 0) :
    Follow ((smartLinkHandleUpdate true new old).foldl npdSmartLinkMsgHandler ports_stp) new := by
  have hi' : new.mst_instance ≠ 0 := ht.mst_instance ▸ hi
  -- A message that names both ports sets both.
  have hb : Follow (npdSmartLinkMsgHandler ports_stp
      ⟨new.slave_port, new.master_port, new.mst_instance, new.id⟩) new :=
    ⟨shows_unblock hi' (ht.id ▸ hid), shows_block hi' (ht.id ▸ hid)⟩
  rw [smartLinkHandleUpdate, if_pos rfl]
  by_cases hsm : new.is_enable = old.is_enable
  · rw [if_neg (not_not.mpr hsm), if_pos he]
    have ho := h (hsm ▸ he)
    by_cases hmp : new.master_port = old.master_port
    · have ha : new.master_port ≠ 0 →
          Shows ports_stp new.mst_instance new.master_port .forward := by
        rw [hmp, ht.mst_instance]
        exact ho.active
      rw [if_neg (not_not.mpr hmp)]
      by_cases hsp : new.slave_port = old.slave_port
      · rw [if_neg (not_not.mpr hsp)]
        refine ⟨ha, ?_⟩
        rw [hsp, hmp, ht.mst_instance]
        exact ho.standby
      · rw [if_pos hsp]
        -- Only the standby port changes: it is none, or a port that is not the active one.
        have hn := ht.standby hp he hsm hsp
        have hid0 : (0 : UInt32) ≠ 0xFFFFFFFF := by decide
        split_ifs with hs
        · refine ⟨fun h0 => ?_, fun h0 _ => shows_block hi' hid0 h0 h0⟩
          refine (ha h0).of_ne hi' hid0 rfl fun heq => ?_
          exact (hn (heq ▸ h0)).2 heq.symm
        · exact ⟨ha, fun h0 => absurd (hn h0).1 hs⟩
    · rw [if_pos hmp]
      exact hb
  · rw [if_pos hsm, if_pos he]
    exact hb

theorem turns_linkup (hfrm : entry.Formed) (hdist : entry.master_index = entry.slave_index →
    entry.master_index = 0) {i : UInt32} (hi : i ≠ 0) :
    entry.Turns (smartLinkAppEventLinkup entry i) := by
  obtain ⟨hm, hs, -⟩ := hfrm
  unfold smartLinkAppEventLinkup
  cases hms : entry.master_status <;> cases hss : entry.slave_status <;> constructor <;>
    grind

theorem turns_linkdown (i : UInt32) : entry.Turns (smartLinkAppEventLinkdown entry i) := by
  unfold smartLinkAppEventLinkdown linkdownMember
  cases hms : entry.master_status <;> cases hss : entry.slave_status <;> constructor <;>
    grind

section

variable (hfrm : entry.Formed)
  (hdist : entry.master_index = entry.slave_index → entry.master_index = 0) (v : UInt32)
include hfrm hdist

theorem turns_enable : entry.Turns (smartLinkEnable entry v) := by
  obtain ⟨hm, hs, -⟩ := hfrm
  unfold smartLinkEnable Group.choosePorts
  cases hms : entry.master_status <;> cases hss : entry.slave_status <;> constructor <;>
    grind

theorem turns_preempt : entry.Turns (smartLinkPreempt entry v) := by
  obtain ⟨hm, hs, -⟩ := hfrm
  unfold smartLinkPreempt Group.choosePorts
  cases hms : entry.master_status <;> cases hss : entry.slave_status <;> constructor <;>
    grind

end

end

/-! ## Whole runs -/

section

variable {s : LinkSystem} {new : Group}

def LinkSystem.settled (s : LinkSystem) : PortsStp :=
  s.pending.foldl npdSmartLinkMsgHandler s.ports_stp

structure LinkSystem.Inv (s : LinkSystem) : Prop where
  formed : s.entry.Formed
  distinct : s.entry.master_index = s.entry.slave_index → s.entry.master_index = 0
  mst_instance : s.entry.mst_instance ≠ 0
  id_ne : s.entry.id ≠ 0xFFFFFFFF
  picks : s.entry.is_enable ≠ 0 → s.entry.Picks
  follow : s.entry.is_enable ≠ 0 → Follow s.settled s.entry
  retired : s.entry.is_enable = 0 → s.served = true → ∀ p, s.entry.Member p → ∀ info,
    s.settled p s.entry.mst_instance = some info →
    info.state = .forward ∧ info.smartlink_flag = 0

theorem LinkSystem.Start.inv (h : s.Start) : s.Inv where
  formed := h.formed
  distinct := h.distinct
  mst_instance := h.mst_instance
  id_ne := h.id_ne
  picks he := absurd h.is_enable he
  follow he := absurd h.is_enable he
  retired _ hsr := absurd (h.served.symm.trans hsr) Bool.false_ne_true

theorem LinkSystem.Inv.update (h : s.Inv) (ht : s.entry.Turns new) (hfrm : new.Formed)
    {served : Bool} (hsr : s.entry.is_enable = 0 → new.is_enable = 0 → served = s.served) :
    { s.update new with served }.Inv := by
  have hse : { s.update new with served }.settled =
      (smartLinkHandleUpdate true new s.entry).foldl npdSmartLinkMsgHandler s.settled := foldl_append
  have hin : new.mst_instance ≠ 0 := ht.mst_instance ▸ h.mst_instance
  refine ⟨hfrm, ?_, hin, ht.id ▸ h.id_ne, fun he => ht.picks he h.picks, ?_, ?_⟩
  · dsimp only [LinkSystem.update]
    rw [ht.master_index, ht.slave_index]
    exact h.distinct
  · intro he
    rw [hse]
    exact follow_update ht h.picks h.mst_instance h.id_ne h.follow he
  · intro h0 hs p hp info hi
    rw [hse, smartLinkHandleUpdate, if_pos rfl] at hi
    dsimp only [LinkSystem.update] at h0 hs hp hi
    have hp' : p = s.entry.master_index ∨ p = s.entry.slave_index := by
      rwa [Group.Member, ht.master_index, ht.slave_index] at hp
    rw [ht.mst_instance] at hi
    by_cases he : s.entry.is_enable = 0
    · rw [h0, he, if_neg (not_not.mpr rfl), if_neg (not_not.mpr rfl)] at hi
      exact h.retired he ((hsr he h0).symm.trans hs) p hp' info hi
    · rw [h0, if_pos (Ne.symm he), if_neg (not_not.mpr rfl), foldl_cons, foldl_nil,
        msgHandler_retire h.mst_instance, if_pos hp'] at hi
      obtain ⟨-, -, rfl⟩ := map_eq_some_iff.mp hi
      exact ⟨rfl, rfl⟩

theorem LinkSystem.Inv.step (h : s.Inv) {e : LinkEvent} (he : e.Real) : (s.step e).Inv := by
  have hfrm := fun (e' : GroupEvent) he' => h.formed.step (s := ⟨s.entry, false⟩) e' he'
  cases e with
  | linkup i =>
    exact h.update (turns_linkup h.formed h.distinct he) (hfrm (.linkup i) he) fun _ _ => rfl
  | linkdown i => exact h.update (turns_linkdown i) (hfrm (.linkdown i) trivial) fun _ _ => rfl
  | enable v =>
    refine h.update (turns_enable h.formed h.distinct v) (hfrm (.enable v) trivial) fun _ h0 => ?_
    rw [h0]
    exact Bool.or_false _
  | preempt v =>
    exact h.update (turns_preempt h.formed h.distinct v) (hfrm (.preempt v) trivial) fun _ _ => rfl
  | deliver =>
    obtain ⟨entry, pending, ports_stp, served⟩ := s
    cases pending with
    | nil => exact h
    | cons data pending => exact ⟨h.1, h.2, h.3, h.4, h.5, h.6, h.7⟩

theorem LinkSystem.Inv.statesFollow (h : s.Inv) (hpe : s.pending = []) :
    StatesFollow s.ports_stp s.entry s.served := by
  have hse : s.settled = s.ports_stp := by rw [settled, hpe]; rfl
  refine ⟨fun he => (hse ▸ h.follow he).active, fun he hm hs p hp hne => ?_,
    fun h0 hsr p hp _ => hse ▸ h.retired h0 hsr p hp⟩
  have hpi := h.picks he
  rw [Group.Picks, hm.2, hs.2] at hpi
  have hsp : p = s.entry.slave_port ∧ s.entry.slave_port ≠ 0 := by
    rcases hpi with ⟨hmp, hsp⟩ | ⟨hmp, hsp⟩
    · exact ⟨(hp.resolve_left fun hm' => hne (hm'.trans hmp.symm)).trans hsp.symm, hsp ▸ hs.1⟩
    · exact ⟨(hp.resolve_right fun hs' => hne (hs'.trans hmp.symm)).trans hsp.symm, hsp ▸ hm.1⟩
  rw [hsp.1]
  exact (hse ▸ h.follow he).standby hsp.2 (hsp.1 ▸ hne)

end

/-- **The states of the ports follow the group**, whenever all the messages of a run are handled. -/
theorem statesFollow_run {s : LinkSystem} (h : s.Start) (es : List LinkEvent)
    (hes : ∀ e ∈ es, e.Real) (hpending : (es.foldl step s).pending = []) :
    StatesFollow (es.foldl step s).ports_stp (es.foldl step s).entry
      (es.foldl step s).served := by
  have hinv : (es.foldl step s).Inv :=
    foldlRecOn es _ h.inv fun _ hs e he => hs.step (hes e he)
  exact hinv.statesFollow hpending

def idleGroup : LinkSystem :=
  ⟨⟨1, 0, 0, 1, 0x20004000, 0, 0x20004000, .up, 0x20008000, .up, .clear⟩, [],
    fun _ _ => some ⟨0, .forward⟩, false⟩

theorem idleGroup_start : idleGroup.Start where
  formed := by constructor <;> decide
  distinct := by decide
  mst_instance := by decide
  id_ne := by decide
  is_enable := rfl
  pending := rfl
  served := rfl

/-- The master goes down, which makes the slave the active port, and comes back as the standby. -/
def masterFlaps : List LinkEvent :=
  [.enable 1, .deliver, .linkdown 0x20004000, .deliver, .linkup 0x20004000, .deliver]

/-- Then the slave forwards and the master is blocked; out of service again, both forward. -/
theorem statesFollow_masterFlaps :
    let t := masterFlaps.foldl step idleGroup
    let u := (masterFlaps ++ [LinkEvent.enable 0, .deliver]).foldl step idleGroup
    Shows t.ports_stp 1 0x20008000 .forward ∧ Shows t.ports_stp 1 0x20004000 .discard ∧
      Shows u.ports_stp 1 0x20008000 .forward ∧ Shows u.ports_stp 1 0x20004000 .forward := by
  have h := statesFollow_run idleGroup_start masterFlaps
    (by simp [masterFlaps, LinkEvent.Real]) rfl
  have hu := statesFollow_run idleGroup_start (masterFlaps ++ [.enable 0, .deliver])
    (by simp [masterFlaps, LinkEvent.Real]) rfl
  refine ⟨h.active (by decide) (by decide), ?_, fun info hi => ?_, fun info hi => ?_⟩
  · exact h.standby (by decide) ⟨by decide, rfl⟩ ⟨by decide, rfl⟩ _ (Or.inl rfl) (by decide)
  · exact (hu.retired rfl rfl _ (Or.inr rfl) (by decide) info hi).1
  · exact (hu.retired rfl rfl _ (Or.inl rfl) (by decide) info hi).1

end Chanos.SmartLink

import Chanos.Lib.Trace
import Mathlib.Data.Finset.Sort
import Mathlib.Tactic

/-!
# Ports in VLANs

`npd_netif_allow_vlan`, `npd_netif_free_vlan` and the events of the ports write the records of the
ports, which name their VLANs, and the records of the VLANs, which name their ports. As long as the
two agree a VLAN is up exactly while one of its ports is, and its notifications alternate
(`vlan_up_iff`).
-/

namespace Chanos.Vlan

open Lib Function Finset

inductive AccessMode
  | access
  | trunk
  | hybrid
  deriving DecidableEq

inductive VlanCode
  | vlanNotExists
  | portNotSwitchMode
  | portNotExists
  | portExists
  | tagConflict
  | mbrshipConflict
  | elineFull

/-- The records of the ports and of the VLANs, field by field. `(p, v, tagged)` is in `allow` if the
record of the port `p` has `v` in `allow_tag_vlans` or `allow_untag_vlans`, and in `members` if the
record of `v` has `p` in `tag_ports` or `untag_ports`. `link_state` and `link_status` have the ports
and the VLANs that are up, and `sent` the notifications of each VLAN, the last one first. -/
structure L2State where
  switch_ports : Finset ℕ
  g_vlans : Finset ℕ
  allow : Finset (ℕ × ℕ × Bool)
  members : Finset (ℕ × ℕ × Bool)
  pvid : ℕ → ℕ
  vlan_access_mode : ℕ → AccessMode
  single_xc : Finset ℕ
  link_state : Finset ℕ
  link_status : Finset ℕ
  sent : ℕ → List Bool

namespace L2State

variable (s : L2State) (p v : ℕ) (tagged : Bool)

def portsOf : Finset ℕ := (s.members.filter fun x => x.2 = (v, tagged)).image (·.1)

def vlansOf : Finset ℕ := (s.allow.filter fun x => x.1 = p ∧ x.2.2 = tagged).image (·.2.1)

def AnyUp : Prop := ∃ x ∈ s.members, x.2.1 = v ∧ x.1 ∈ s.link_state

instance : Decidable (s.AnyUp v) := inferInstanceAs (Decidable (∃ _ ∈ _, _))

-- The loops over the ports of a VLAN end at the first one that is up.
def recheck : L2State :=
  if v ∈ s.link_status ∧ ¬s.AnyUp v then
    { s with link_status := s.link_status.erase v, sent := update s.sent v (false :: s.sent v) }
  else s

def raise : L2State :=
  if v ∈ s.g_vlans ∧ v ∉ s.link_status then
    { s with link_status := insert v s.link_status, sent := update s.sent v (true :: s.sent v) }
  else s

/-- `npd_vlan_relate_event` for PORT_NOTIFIER_JOIN. -/
def join : L2State := if p ∈ s.link_state then s.raise v else s

/-- `npd_vlan_relate_event` for PORT_NOTIFIER_LEAVE. -/
def leave : L2State := if p ∈ s.switch_ports then s.recheck v else s

def addMember (pvid : ℕ) : L2State :=
  { s with
    allow := insert (p, v, tagged) s.allow
    members := insert (p, v, tagged) s.members
    pvid := update s.pvid p pvid }

def removeMember : L2State :=
  { s with allow := s.allow.erase (p, v, tagged), members := s.members.erase (p, v, tagged) }

-- A tag of the default VLAN is taken out of the record of the port only.
def leaveNative : L2State :=
  if v = 1 then { s with pvid := update s.pvid p 0 }
  else (addMember { s with allow := s.allow.erase (p, 1, true) } p 1 false 1).join p 1

def npdNetifFreeVlan : Except VlanCode L2State :=
  if v ∉ s.g_vlans then .error .vlanNotExists
  else if p ∉ s.switch_ports then .error .portNotSwitchMode
  else if (p, v, tagged) ∉ s.members then .error .portNotExists
  else
    let s' := (s.removeMember p v tagged).leave p v
    .ok (if tagged = false ∧ s'.pvid p = v then s'.leaveNative p v else s')

def freed : L2State := (s.npdNetifFreeVlan p v tagged).toOption.getD s

def npdNetifAllowVlan (pvid_set : Bool) : Except VlanCode L2State :=
  if p ∉ s.switch_ports then .error .portNotSwitchMode
  else if v ∉ s.g_vlans then .error .vlanNotExists
  else if v ∈ s.single_xc ∧ 2 ≤ (s.portsOf v true ∪ s.portsOf v false).card then .error .elineFull
  else if (p, v, !tagged) ∈ s.members then .error .tagConflict
  else if (p, v, tagged) ∈ s.members then .error .portExists
  else if tagged = true then
    if s.vlan_access_mode p = .access then .error .mbrshipConflict
    else .ok ((s.addMember p v tagged (s.pvid p)).join p v)
  else if s.pvid p = 0 then
    if v = 1 then .ok ((s.addMember p v tagged v).join p v) else .error .mbrshipConflict
  else if s.pvid p = 1 ∧ pvid_set = true then
    .ok (((s.addMember p v tagged v).freed p 1 false).join p v)
  else if s.vlan_access_mode p ≠ .hybrid then .error .mbrshipConflict
  else .ok ((s.addMember p v tagged (s.pvid p)).join p v)

def allowed (pvid_set : Bool) : L2State := (s.npdNetifAllowVlan p v tagged pvid_set).toOption.getD s

def freeEach : List ℕ → L2State → L2State × Bool
  | [], s => (s, true)
  | v :: vs, s =>
    match s.npdNetifFreeVlan p v tagged with
    | .ok s' => freeEach vs s'
    | .error _ => (s, false)

def npdNetifFreeAllvlan : L2State :=
  let r := freeEach p true (s.vlansOf p true).sort s
  if r.2 = true then (freeEach p false (s.vlansOf p false).sort r.1).1 else r.1

def npdCreateSwitchPort (mode : AccessMode) (up : Bool) : L2State :=
  if p ∈ s.switch_ports then s
  else { s with
    switch_ports := insert p s.switch_ports
    pvid := update s.pvid p 0
    vlan_access_mode := update s.vlan_access_mode p mode
    link_state := if up then insert p s.link_state else s.link_state }

def npdDeleteSwitchPort : L2State :=
  { s with
    switch_ports := s.switch_ports.erase p
    allow := s.allow.filter (·.1 ≠ p)
    link_state := s.link_state.erase p }

def linkChange (up : Bool) : L2State :=
  if p ∈ s.switch_ports then
    (s.vlansOf p true ∪ s.vlansOf p false).sort.foldl (if up then raise else recheck)
      { s with link_state := if up then insert p s.link_state else s.link_state.erase p }
  else s

end L2State

inductive L2Op
  | allow (p v : ℕ) (tagged pvid_set : Bool)
  | free (p v : ℕ) (tagged : Bool)
  | l2create (p : ℕ) (mode : AccessMode) (up : Bool)
  | l2delete (p : ℕ)
  | linkup (p : ℕ)
  | linkdown (p : ℕ)
  | insert (p : ℕ)
  | remove (p : ℕ)

namespace L2State

def step (s : L2State) : L2Op → L2State
  | .allow p v tagged pvid_set => s.allowed p v tagged pvid_set
  | .free p v tagged => s.freed p v tagged
  | .l2create p mode up => (s.npdCreateSwitchPort p mode up).allowed p 1 false true
  | .l2delete p => ((s.npdNetifFreeAllvlan p).npdNetifFreeAllvlan p).npdDeleteSwitchPort p
  | .linkup p => s.linkChange p true
  | .linkdown p | .remove p => s.linkChange p false
  | .insert _ => s

/-- The default VLAN and others have been created, and there are no ports yet. -/
def init (g_vlans single_xc : Finset ℕ) : L2State :=
  ⟨∅, insert 1 g_vlans, ∅, ∅, fun _ => 0, fun _ => .trunk, single_xc, ∅, ∅, fun _ => []⟩

/-! ## The state of a VLAN -/

/-- The records of ports and VLANs agree. -/
structure Agree (s : L2State) : Prop where
  allow_eq : s.allow = s.members
  pvid : ∀ p ∈ s.switch_ports, s.pvid p = 0 ∨ (p, s.pvid p, false) ∈ s.members
  exist : ∀ x ∈ s.members, x.1 ∈ s.switch_ports ∧ x.2.1 ∈ s.g_vlans

/-- The notifications alternate, beginning with LINKUP, and the last one is right. -/
def Alternates : Bool → List Bool → Prop
  | up, [] => up = false
  | up, x :: l => x = up ∧ Alternates (!up) l

/-- The VLANs of `up` have to be raised and those of `down` to be checked again. -/
structure Pending (up down : List ℕ) (s : L2State) : Prop where
  anyUp_iff : ∀ v, s.AnyUp v ↔ v ∈ s.link_status ∧ (v ∈ down → s.AnyUp v) ∨ v ∈ up
  alternates : ∀ v, Alternates (decide (v ∈ s.link_status)) (s.sent v)
  exist : ∀ v ∈ up, v ∈ s.g_vlans
  default : 1 ∈ s.g_vlans

abbrev Live : L2State → Prop := Pending [] []

variable {s s' : L2State} {p v w n : ℕ} {tagged : Bool} {up down : List ℕ}

theorem Pending.raise (h : Pending (v :: up) down s) : Pending up down (s.raise v) := by
  obtain ⟨ha, hal, he, h1⟩ := h
  have hv := he v List.mem_cons_self
  unfold L2State.raise
  split_ifs with hc
  · refine ⟨fun w => ?_, fun w => ?_, by grind, h1⟩
    · have := ha w
      change s.AnyUp w ↔ w ∈ insert v s.link_status ∧ (w ∈ down → s.AnyUp w) ∨ w ∈ up
      grind
    · have := hal w
      grind [Alternates, update_apply]
  · refine ⟨fun w => ?_, hal, by grind, h1⟩
    have := ha w
    grind

theorem Pending.recheck (h : Pending up (v :: down) s) : Pending up down (s.recheck v) := by
  obtain ⟨ha, hal, he, h1⟩ := h
  unfold L2State.recheck
  split_ifs with hc
  · refine ⟨fun w => ?_, fun w => ?_, he, h1⟩
    · have := ha w
      change s.AnyUp w ↔ w ∈ s.link_status.erase v ∧ (w ∈ down → s.AnyUp w) ∨ w ∈ up
      grind
    · have := hal w
      grind [Alternates, update_apply]
  · refine ⟨fun w => ?_, hal, he, h1⟩
    have := ha w
    grind

theorem anyUp_addMember : (s.addMember p v tagged n).AnyUp w ↔
    s.AnyUp w ∨ v = w ∧ p ∈ s.link_state := by
  simp [AnyUp, addMember, or_comm]

theorem anyUp_removeMember : (s.removeMember p v tagged).AnyUp w ↔
    s.AnyUp w ∧ (w = v → (s.removeMember p v tagged).AnyUp w) := by
  constructor
  · rintro ⟨x, hx, hu⟩
    exact ⟨⟨x, mem_of_mem_erase hx, hu⟩, fun _ => ⟨x, hx, hu⟩⟩
  · rintro ⟨⟨x, hx, hw, hu⟩, h⟩
    by_cases hv : w = v
    · exact h hv
    · exact ⟨x, mem_erase.mpr ⟨by rintro rfl; exact hv hw.symm, hx⟩, hw, hu⟩

def waiting (s : L2State) (p v : ℕ) : List ℕ := if p ∈ s.link_state then [v] else []

theorem Live.addMember (h : Live s) (hv : v ∈ s.g_vlans) :
    Pending (s.waiting p v) [] (s.addMember p v tagged n) := by
  have hw : ∀ w, w ∈ s.waiting p v ↔ v = w ∧ p ∈ s.link_state := by
    unfold waiting
    grind
  refine ⟨fun w => ?_, h.alternates, fun w hm => ((hw w).mp hm).1 ▸ hv, h.default⟩
  rw [anyUp_addMember, hw, h.anyUp_iff]
  simp [L2State.addMember]

theorem Pending.join (h : Pending (s.waiting p v) [] s) : Live (s.join p v) := by
  unfold L2State.join
  unfold waiting at h
  split_ifs at h ⊢
  exacts [h.raise, h]

theorem Pending.removeLeave (h : Pending up [] s) (hp : p ∈ s.switch_ports) (hv : v ∉ up) :
    Pending up [] ((s.removeMember p v tagged).leave p v) := by
  rw [leave, if_pos (show p ∈ (s.removeMember p v tagged).switch_ports from hp)]
  refine Pending.recheck ⟨fun w => ?_, h.alternates, h.exist, h.default⟩
  have hm : (s.removeMember p v tagged).AnyUp w ↔ _ := anyUp_removeMember
  have ha := h.anyUp_iff w
  change _ ↔ w ∈ s.link_status ∧ _ ∨ _
  grind

theorem Live.ports (h : Live s) {ports up : Finset ℕ} {allow : Finset (ℕ × ℕ × Bool)}
    {pvid : ℕ → ℕ} {mode : ℕ → AccessMode} (hu : ∀ x ∈ s.members, x.1 ∈ up ↔ x.1 ∈ s.link_state) :
    Live { s with
      switch_ports := ports, allow, pvid, vlan_access_mode := mode, link_state := up } := by
  refine ⟨fun w => ?_, h.alternates, h.exist, h.default⟩
  have ha := h.anyUp_iff w
  unfold AnyUp at ha ⊢
  grind

theorem Live.freeVlan (h : Live s) (hok : s.npdNetifFreeVlan p v tagged = .ok s') : Live s' := by
  unfold npdNetifFreeVlan at hok
  split_ifs at hok with hv hp hm
  cases hok
  have hr : Live ((s.removeMember p v tagged).leave p v) := h.removeLeave hp List.not_mem_nil
  split_ifs
  · unfold leaveNative
    split_ifs
    · exact hr.ports fun _ _ => Iff.rfl
    · refine Pending.join (Live.addMember (hr.ports fun _ _ => Iff.rfl) ?_)
      exact hr.default
  · exact hr

theorem Live.freed (h : Live s) : Live (s.freed p v tagged) := by
  unfold L2State.freed
  cases hok : s.npdNetifFreeVlan p v tagged with
  | error => exact h
  | ok s' => exact h.freeVlan hok

theorem Live.freeEach (h : Live s) (vs : List ℕ) : Live (freeEach p tagged vs s).1 := by
  induction vs generalizing s with
  | nil => exact h
  | cons v vs ih =>
    unfold L2State.freeEach
    cases hok : s.npdNetifFreeVlan p v tagged with
    | error => exact h
    | ok s' => exact ih (h.freeVlan hok)

theorem Live.freeAllvlan (h : Live s) : Live (s.npdNetifFreeAllvlan p) := by
  unfold npdNetifFreeAllvlan
  dsimp only
  split_ifs
  · exact (h.freeEach _).freeEach _
  · exact h.freeEach _

theorem leave_fields : (s.leave p v).pvid = s.pvid ∧ (s.leave p v).link_state = s.link_state := by
  unfold leave recheck
  split_ifs <;> exact ⟨rfl, rfl⟩

theorem freed_default (h1 : 1 ∈ s.g_vlans) (hp : p ∈ s.switch_ports)
    (hm : (p, 1, false) ∈ s.members) (hn : s.pvid p ≠ 1) :
    s.freed p 1 false = (s.removeMember p 1 false).leave p 1 := by
  unfold L2State.freed npdNetifFreeVlan
  rw [if_neg (not_not.mpr h1), if_neg (not_not.mpr hp), if_neg (not_not.mpr hm)]
  dsimp only
  rw [leave_fields.1, if_neg fun h => hn h.2]
  rfl

theorem Live.allowed {pvid_set : Bool} (h : Live s)
    (hpv : p ∈ s.switch_ports → s.pvid p = 1 → (p, 1, false) ∈ s.members) :
    Live (s.allowed p v tagged pvid_set) := by
  have hj {n : ℕ} (hv : v ∈ s.g_vlans) : Live ((s.addMember p v tagged n).join p v) :=
    Pending.join (h.addMember hv)
  unfold L2State.allowed npdNetifAllowVlan
  split_ifs with hp hv hx hc he ht hm hz hv1 hn hh
  all_goals try first
    | exact h
    | exact hj hv
  -- The native VLAN was the default VLAN and is another one now.
  obtain rfl : tagged = false := by simpa using ht
  have hin := hpv hp hn.1
  have hne : v ≠ 1 := by
    rintro rfl
    exact he hin
  have hw : 1 ∉ s.waiting p v := by
    unfold waiting
    split_ifs <;> simp [hne.symm]
  have hadd : Pending (s.waiting p v) [] (s.addMember p v false v) := h.addMember hv
  change Live (((s.addMember p v false v).freed p 1 false).join p v)
  rw [freed_default (s := s.addMember p v false v) h.default hp (mem_insert_of_mem hin)
    (by simpa [L2State.addMember])]
  refine Pending.join ?_
  rw [waiting, leave_fields.2]
  exact hadd.removeLeave hp hw

theorem Pending.foldl_raise (h : Pending up [] s) : Live (up.foldl L2State.raise s) := by
  induction up generalizing s with
  | nil => exact h
  | cons v up ih => exact ih h.raise

theorem Pending.foldl_recheck (h : Pending [] down s) : Live (down.foldl L2State.recheck s) := by
  induction down generalizing s with
  | nil => exact h
  | cons v down ih => exact ih h.recheck

theorem mem_vlansOf : v ∈ s.vlansOf p tagged ↔ (p, v, tagged) ∈ s.allow := by
  cases tagged <;> simp [vlansOf]

theorem Live.linkChange (h : Live s) (ha : Agree s) (b : Bool) : Live (s.linkChange p b) := by
  have hm : ∀ w, w ∈ (s.vlansOf p true ∪ s.vlansOf p false).sort ↔
      ∃ tagged, (p, w, tagged) ∈ s.members := by
    simp [mem_vlansOf, ha.allow_eq, or_comm]
  unfold L2State.linkChange
  by_cases hp : p ∈ s.switch_ports
  swap
  · rwa [if_neg hp]
  rw [if_pos hp]
  cases b with
  | true =>
    refine Pending.foldl_raise ⟨fun w => ?_, h.alternates, fun w hw => ?_, h.default⟩
    · have hu := h.anyUp_iff w
      rw [hm]
      change _ ↔ w ∈ s.link_status ∧ _ ∨ _
      unfold AnyUp at hu ⊢
      grind
    · obtain ⟨_, hx⟩ := (hm w).mp hw
      exact (ha.exist _ hx).2
  | false =>
    refine Pending.foldl_recheck ⟨fun w => ?_, h.alternates, h.exist, h.default⟩
    have hu := h.anyUp_iff w
    rw [hm]
    change _ ↔ w ∈ s.link_status ∧ _ ∨ _
    unfold AnyUp at hu ⊢
    grind

theorem Agree.native (ha : Agree s) (hp : p ∈ s.switch_ports) (h1 : s.pvid p = 1) :
    (p, 1, false) ∈ s.members := by
  have := ha.pvid p hp
  simpa [h1] using this

theorem Live.step (h : Live s) (ha : Agree s) {op : L2Op} (ha' : Agree (s.step op)) :
    Live (s.step op) := by
  cases op with
  | allow p v tagged pvid_set => exact h.allowed ha.native
  | free p v tagged => exact h.freed
  | l2create p mode up =>
    unfold L2State.step npdCreateSwitchPort
    by_cases hp : p ∈ s.switch_ports
    · simp only [if_pos hp]
      exact h.allowed ha.native
    · simp only [if_neg hp]
      refine (h.ports fun x hx => ?_).allowed fun _ h₁ => by simp at h₁
      have := ha.exist x hx
      grind
  | l2delete p =>
    refine (h.freeAllvlan.freeAllvlan).ports fun x hx => ?_
    have := ha'.exist x hx
    simp [ne_of_mem_erase this.1]
  | linkup p => exact h.linkChange ha true
  | linkdown p | remove p => exact h.linkChange ha false
  | insert p => exact h

/-- In every run in which the records agree, a VLAN is up exactly while one of its ports is, and its
notifications alternate. -/
theorem vlan_up_iff (g_vlans single_xc : Finset ℕ) (l : List (L2Op × L2State))
    (hr : Along (fun s op s' => s' = s.step op ∧ Agree s') (init g_vlans single_xc) l) :
    Along (fun _ _ s' => (∀ v, v ∈ s'.link_status ↔ s'.AnyUp v) ∧
      ∀ v, Alternates (decide (v ∈ s'.link_status)) (s'.sent v)) (init g_vlans single_xc) l := by
  refine along_of_invariant (fun s op s' hst (hi : Live s ∧ Agree s) => ?_) hr ⟨?_, ?_⟩
  · obtain ⟨rfl, ha'⟩ := hst
    have hl := hi.1.step hi.2 ha'
    exact ⟨⟨by simpa using fun v => (hl.anyUp_iff v).symm, hl.alternates⟩, hl, ha'⟩
  · refine ⟨?_, ?_, ?_, ?_⟩ <;> simp [init, AnyUp, Alternates]
  · refine ⟨rfl, ?_, ?_⟩ <;> simp [init]

/-- The port 5 is added, which is up, and 6, which is down; and 5 is put into the VLAN 2, taken out
of it and put into it again. -/
def portFive : List (L2Op × L2State) :=
  let s₁ := (init {2} ∅).step (.l2create 5 .trunk true)
  let s₂ := s₁.step (.l2create 6 .access false)
  let s₃ := s₂.step (.allow 5 2 true false)
  let s₄ := s₃.step (.free 5 2 true)
  [(.l2create 5 .trunk true, s₁), (.l2create 6 .access false, s₂), (.allow 5 2 true false, s₃),
    (.free 5 2 true, s₄), (.allow 5 2 true false, s₄.step (.allow 5 2 true false))]

/-- The VLAN 2 is up while the port 5 is in it, and each change is notified once. -/
theorem portFive_up :
    Along (fun _ _ s' => (∀ v, v ∈ s'.link_status ↔ s'.AnyUp v) ∧
      ∀ v, Alternates (decide (v ∈ s'.link_status)) (s'.sent v)) (init {2} ∅) portFive ∧
    (portFive.map fun x => (x.2.link_status, x.2.sent 2)) = [({1}, []), ({1}, []), ({1, 2}, [true]),
      ({1}, [false, true]), ({1, 2}, [true, false, true])] := by
  refine ⟨vlan_up_iff {2} ∅ portFive ?_, by decide +kernel⟩
  refine ⟨⟨rfl, ?_, ?_, ?_⟩, ⟨rfl, ?_, ?_, ?_⟩, ⟨rfl, ?_, ?_, ?_⟩, ⟨rfl, ?_, ?_, ?_⟩,
    ⟨rfl, ?_, ?_, ?_⟩, trivial⟩ <;> decide +kernel

end L2State

end Chanos.Vlan

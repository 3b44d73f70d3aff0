import Chanos.Lib.OrderedTable
import Chanos.Lib.Trace

/-!
# Reverse-path checking

A route has the flag `NPD_ROUTE_URPF` when the source addresses of packets are checked against it.
`npd_route_set_route_v4` sets the flag of a new route by the configured mode, and
`npd_route_update_urpf` those of the routes that are there when the mode changes. The second leaves
the flag of a default route as it was when default routes are to be excluded (`flags_follow_iff`).
-/

namespace Chanos.Route

open Lib List OrderedTable

inductive UrpfMode
  | loose
  | strictAll
  | strictExcludeDefault
  deriving DecidableEq

structure RouteFlag where
  valid : Bool
  ecmp : Bool
  urpf : Bool
  mcast : Bool
  deriving DecidableEq

structure RouteItem where
  DIP : UInt32
  sip : UInt32
  sifindex : UInt32
  nexthop : UInt32
  masklen : UInt32
  ifindex : UInt32
  rt_type : UInt32
  isStatic : Bool
  flag : RouteFlag
  deriving DecidableEq

/-- The fields that `npd_route_compare` compares. -/
def RouteItem.key (r : RouteItem) : UInt32 × UInt32 × UInt32 × UInt32 × UInt32 × UInt32 :=
  (r.DIP, r.masklen, r.nexthop, r.sifindex, r.sip, r.ifindex)

abbrev RouteTable (hash : UInt32 → ℕ) (size : ℕ) : Type :=
  OrderedTable RouteItem.key (fun k => hash k.1) size

/-- A message about one next hop of a route, with the indexes of the interfaces in the system. -/
structure RttblInfo where
  DIP : UInt32
  SIP : UInt32
  sifindex : UInt32
  nexthop : UInt32
  masklen : UInt32
  ifindex : UInt32
  rt_type : UInt32
  multipath : Bool
  rtprot_static : Bool

inductive RouteEvent
  | config (rpfen : UrpfMode)
  | newRoute (rtInfo : RttblInfo) (nexthop_find : Bool)
  | delRoute (rtInfo : RttblInfo)

open RouteEvent

structure UrpfState (hash : UInt32 → ℕ) (size : ℕ) where
  urpf_strict_enable : UrpfMode
  tbl : RouteTable hash size

def rtnMulticast : UInt32 := 5

def dbItem (urpf_strict_enable : UrpfMode) (rtInfo : RttblInfo) (nexthop_find : Bool) : RouteItem where
  DIP := rtInfo.DIP
  sip := rtInfo.SIP
  sifindex := rtInfo.sifindex
  nexthop := rtInfo.nexthop
  masklen := rtInfo.masklen
  ifindex := rtInfo.ifindex
  rt_type := rtInfo.rt_type
  isStatic := rtInfo.rtprot_static
  flag := {
    urpf := match urpf_strict_enable with
      | .strictAll => true
      | .strictExcludeDefault => rtInfo.DIP != 0
      | .loose => false
    mcast := rtInfo.rt_type == rtnMulticast
    ecmp := rtInfo.multipath
    -- The route is not valid before the next hop answers.
    valid := !(rtInfo.nexthop != 0 && rtInfo.rt_type != rtnMulticast && !nexthop_find) }

def npdRouteUpdateUrpf (flag : UrpfMode) (item : RouteItem) : RouteItem :=
  match flag with
  | .strictAll => { item with flag.urpf := true }
  | .strictExcludeDefault => if item.DIP ≠ 0 then { item with flag.urpf := true } else item
  | .loose => { item with flag.urpf := false }

section

variable {hash : UInt32 → ℕ} {size : ℕ}

def npdRouteTraversalByIfindexUpdateFlags (flag : UrpfMode) (tbl : RouteTable hash size) :
    RouteTable hash size :=
  tbl.traversal (fun _ => true) fun tbl item => tbl.update (npdRouteUpdateUrpf flag item)

def RouteEvent.run (s : UrpfState hash size) : RouteEvent → UrpfState hash size
  | config rpfen => ⟨rpfen, npdRouteTraversalByIfindexUpdateFlags rpfen s.tbl⟩
  | newRoute rtInfo nexthop_find =>
    { s with tbl := (s.tbl.insert (dbItem s.urpf_strict_enable rtInfo nexthop_find)).1 }
  | delRoute rtInfo => { s with tbl := s.tbl.erase (dbItem s.urpf_strict_enable rtInfo true).key }

/-- The routes whose flag is set are those that the mode wants to be checked. -/
def UrpfState.FlagsFollow (s : UrpfState hash size) : Prop :=
  ∀ r ∈ s.tbl.items, (r.flag.urpf = true ↔ s.urpf_strict_enable = .strictAll ∨
    s.urpf_strict_enable = .strictExcludeDefault ∧ r.DIP ≠ 0)

/-- The command does not exclude default routes that are checked now. -/
def RouteEvent.ExcludesNone (s : UrpfState hash size) (ev : RouteEvent) : Prop :=
  ev = .config .strictExcludeDefault → s.urpf_strict_enable = .strictAll →
    ∀ r ∈ s.tbl.items, r.DIP ≠ 0

theorem key_updateUrpf (flag : UrpfMode) (item : RouteItem) :
    (npdRouteUpdateUrpf flag item).key = item.key := by
  unfold npdRouteUpdateUrpf
  cases flag with
  | strictExcludeDefault => dsimp only; split_ifs <;> rfl
  | strictAll | loose => rfl

theorem flagsFollow_config_iff {s : UrpfState hash size} (h : s.FlagsFollow) (rpfen : UrpfMode) :
    ((config rpfen).run s).FlagsFollow ↔ (config rpfen).ExcludesNone s := by
  have hi : (npdRouteTraversalByIfindexUpdateFlags rpfen s.tbl).items =
      s.tbl.items.map (npdRouteUpdateUrpf rpfen) :=
    items_traversal_update (key_updateUrpf rpfen) s.tbl
  unfold UrpfState.FlagsFollow
  simp only [run, hi, forall_mem_map, ExcludesNone]
  cases rpfen with
  | strictAll | loose => simp [npdRouteUpdateUrpf]
  | strictExcludeDefault =>
    -- Only the flag of a default route stays as it was.
    have hf : ∀ r ∈ s.tbl.items,
        ((npdRouteUpdateUrpf .strictExcludeDefault r).flag.urpf = true ↔
          (npdRouteUpdateUrpf .strictExcludeDefault r).DIP ≠ 0) ↔
            (s.urpf_strict_enable = .strictAll → r.DIP ≠ 0) := by
      intro r hr
      have ho := h r hr
      by_cases hd : r.DIP = 0
      · simp_all [npdRouteUpdateUrpf]
      · simp [npdRouteUpdateUrpf, hd]
    simp only [reduceCtorEq, false_or, true_and, true_implies]
    exact ⟨fun ha hmd r hr => (hf r hr).mp (ha r hr) hmd,
      fun hno r hr => (hf r hr).mpr fun hmd => hno hmd r hr⟩

theorem RouteEvent.flagsFollow_run_iff {s : UrpfState hash size} (h : s.FlagsFollow)
    (ev : RouteEvent) : (ev.run s).FlagsFollow ↔ ev.ExcludesNone s := by
  cases ev with
  | config rpfen => exact flagsFollow_config_iff h rpfen
  | newRoute rtInfo nexthop_find =>
    refine iff_of_true (fun r hr => ?_) nofun
    rcases mem_insert_fst hr with rfl | hr
    · cases hmd : s.urpf_strict_enable <;> simp [run, dbItem, hmd]
    · exact h r hr
  | delRoute rtInfo => exact iff_of_true (fun r hr => h r (mem_erase.mp hr).1) nofun

end

/-- **Reverse-path checking.** From an empty table on, the flags follow the mode after every event
exactly when no command excludes default routes while they are checked. -/
theorem flags_follow_iff (hash : UInt32 → ℕ) (size : ℕ) (mode : UrpfMode) (events : List RouteEvent) :
    let step (s : UrpfState hash size) (ev : RouteEvent) := some (ev.run s)
    Keeps step UrpfState.FlagsFollow (fun _ _ _ => True) events ⟨mode, .empty⟩ ↔
      Meets step (fun s ev => ev.ExcludesNone s) events ⟨mode, .empty⟩ := by
  refine keeps_iff_meets (fun s ev h => ?_) events fun r hr => absurd hr not_mem_nil
  simpa using ev.flagsFollow_run_iff h

/-- All routes are checked, a default route comes, and default routes are excluded. -/
theorem default_route_checked :
    ∃ events : List RouteEvent,
      let s : UrpfState (fun _ => 0) 4 := events.foldl (fun s ev => ev.run s) ⟨.loose, .empty⟩
      s.urpf_strict_enable = .strictExcludeDefault ∧
        ∃ r ∈ s.tbl.items, r.DIP = 0 ∧ r.flag.urpf = true :=
  ⟨[.config .strictAll, .newRoute ⟨0, 0, 0, 1, 0, 7, 1, false, true⟩ true,
    .config .strictExcludeDefault], rfl, by decide⟩

end Chanos.Route

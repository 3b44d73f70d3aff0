import Chanos.Lib.Bytes

/-!
# The ERPP domains of a node

ERPP protects rings of switches against loops. A node keeps up to eight domains, a domain four rings
and one set of timers, and in each ring the node has a role and two ports.
-/

namespace Chanos.Erpp

open Lib Function

instance neZeroTwo : NeZero 2 := ⟨Nat.succ_ne_zero 1⟩

instance neZeroThree : NeZero 3 := ⟨Nat.succ_ne_zero 2⟩

instance neZeroFour : NeZero 4 := ⟨Nat.succ_ne_zero 3⟩

inductive PortStatus
  | forwarding
  | block
  deriving DecidableEq

inductive NodeRole
  | master
  | transmit
  | edge
  | assistantEdge
  | other (code : ℕ)
  deriving DecidableEq

def erppRingSize : ℕ := 4

def nodeComplete : ℕ := 0

def nodeFail : ℕ := 1

def erppLinkNormal : ℕ := 1

def erppLinkFail : ℕ := 2

def linkUp : ℕ := 0

def linkDown : ℕ := 1

def preForwarding : ℕ := 2

def helloPacket : ℕ := 1

def completeFlushPacket : ℕ := 2

def commonFlushPacket : ℕ := 3

def linkDownPacket : ℕ := 4

def edgeHelloPacket : ℕ := 5

def faultPacket : ℕ := 6

/-! ## Records -/

structure ErppPort where
  netif_index : ℕ
  erpp_port_status : PortStatus
  deriving DecidableEq

structure ErppNode where
  erpp_node_role : NodeRole
  erpp_node_status : ℕ
  port0 : ErppPort
  port1 : ErppPort
  deriving DecidableEq

structure ErppRing where
  ring_id : ℕ
  level : ℕ
  is_enable : Bool
  node : ErppNode
  deriving DecidableEq

/-- A domain (`struct erpp_domain_s`). The counts of seconds, an `int` there, do not wrap here. -/
structure ErppDomain where
  domain_id : ℕ
  control_vlan_id : ℕ
  hello_timer : ℤ
  fail_timer : ℤ
  fault_timer : ℤ
  timer_count0 : ℤ
  timer_count1 : ℤ
  timer_count2 : ℤ
  flush_flag : Bool
  packet_ring : ℤ
  ring : Fin 4 → ErppRing

structure ErppPacket where
  vlanid : ℕ
  erpp_type : ℕ
  domain_id : ℕ
  ring_id : ℕ
  sys_mac : Bytes 6
  hello_timer : ℕ
  fail_timer : ℕ
  level : ℕ
  deriving DecidableEq

/-- What a daemon has besides its domains: its own address, and what the memory around an array of
rings holds. -/
structure Daemon where
  sys_mac : Bytes 6
  stray : ℤ → ErppRing

def clearedRing : ErppRing where
  ring_id := 0
  level := 0
  is_enable := false
  node := ⟨.master, nodeComplete, ⟨0, .forwarding⟩, ⟨0, .forwarding⟩⟩

/-! ## The array of rings -/

def InRange (i : ℤ) : Prop := 0 ≤ i ∧ i < erppRingSize

instance (i : ℤ) : Decidable (InRange i) := inferInstanceAs (Decidable (0 ≤ i ∧ i < erppRingSize))

def cell (i : ℤ) : Fin 4 := Fin.ofNat 4 i.toNat

namespace ErppDomain

def ringAt (stray : ℤ → ErppRing) (d : ErppDomain) (i : ℤ) : ErppRing :=
  if InRange i then d.ring (cell i) else stray i

/-- A write outside the array, which ring id 0 leads to, is dropped: what it overwrites is not part
of the model. -/
def setRing (d : ErppDomain) (i : ℤ) (r : ErppRing) : ErppDomain :=
  if InRange i then { d with ring := update d.ring (cell i) r } else d

end ErppDomain

@[simp]
theorem inRange_val (k : Fin 4) : InRange (k : ℤ) :=
  ⟨Int.natCast_nonneg k, by simpa only [erppRingSize, Nat.cast_lt] using k.isLt⟩

@[simp]
theorem cell_val (k : Fin 4) : cell (k : ℤ) = k := by
  simp only [cell, Int.toNat_natCast, Fin.ofNat_eq_cast, Fin.cast_val_eq_self]

theorem id_sub_one (k : Fin 4) : (((k : ℕ) + 1 : ℕ) : ℤ) - 1 = (k : ℤ) := by
  push_cast
  exact add_sub_cancel_right _ _

namespace ErppDomain

variable (stray : ℤ → ErppRing) (d : ErppDomain) (k j : Fin 4) (r : ErppRing)

@[simp]
theorem ringAt_val : d.ringAt stray (k : ℤ) = d.ring k := by
  rw [ringAt, if_pos (inRange_val k), cell_val]

@[simp]
theorem setRing_val_ring : (d.setRing (k : ℤ) r).ring = update d.ring k r := by
  rw [setRing, if_pos (inRange_val k), cell_val]

theorem setRing_ring (i : ℤ) : (d.setRing i r).ring k = if i = k then r else d.ring k := by
  by_cases hi : i = k
  · rw [hi, setRing_val_ring, update_self, if_pos rfl]
  rw [if_neg hi]
  unfold setRing
  split
  · next hr =>
    obtain ⟨hlo, hh⟩ := hr
    have hc : k ≠ cell i := by
      rintro rfl
      unfold erppRingSize at hh
      have hv : ((cell i : Fin 4) : ℕ) = i.toNat := by
        simp only [cell, Fin.ofNat_eq_cast, Fin.val_natCast]
        omega
      exact hi (by omega)
    exact update_of_ne hc _ _
  · rfl

end ErppDomain

/-- The state of a handler that works on a domain: its copy of the domain, the packets it has sent,
and its accesses to the array of rings, each with the id of the ring handled. -/
structure ErppRun where
  entry : ErppDomain
  sent : List (ℕ × ErppPacket)
  touched : List (ℕ × ℤ)

namespace ErppRun

def start (d : ErppDomain) : ErppRun := ⟨d, [], []⟩

def touch (s : ErppRun) (id : ℕ) (i : ℤ) : ErppRun := { s with touched := s.touched ++ [(id, i)] }

def erppAssemblyPacket (host : Daemon) (d : ErppDomain) (erppType : ℕ) : ErppPacket where
  vlanid := d.control_vlan_id % 2 ^ 12
  erpp_type := erppType % 2 ^ 8
  domain_id := d.domain_id % 2 ^ 16
  ring_id := (d.ringAt host.stray (d.packet_ring - 1)).ring_id % 2 ^ 16
  sys_mac := host.sys_mac
  hello_timer := (d.hello_timer % 2 ^ 16).toNat
  fail_timer := (d.fail_timer % 2 ^ 16).toNat
  level := (d.ringAt host.stray (d.packet_ring - 1)).level % 2 ^ 8

def erppTxTypePacket (host : Daemon) (id packetType netifIndex : ℕ) (s : ErppRun) : ErppRun :=
  let s := s.touch id (s.entry.packet_ring - 1)
  { s with sent := s.sent ++ [(netifIndex, erppAssemblyPacket host s.entry packetType)] }

end ErppRun

/-! ## Commands -/

def NodeRole.ofMode : ℕ → NodeRole
  | 0 => .master
  | 1 => .transmit
  | 2 => .edge
  | 3 => .assistantEdge
  | code => .other code

def ErppRing.configure (r : ErppRing) (ringId : ℕ) (role : NodeRole)
    (primaryPort secondaryPort level : ℕ) : ErppRing :=
  let node : ErppNode :=
    match role with
    | .master => ⟨role, nodeComplete, ⟨primaryPort, .forwarding⟩, ⟨secondaryPort, .block⟩⟩
    | .transmit | .edge | .assistantEdge =>
      ⟨role, linkUp, ⟨primaryPort, .forwarding⟩, ⟨secondaryPort, .forwarding⟩⟩
    | .other _ => ⟨role, r.node.erpp_node_status, ⟨primaryPort, r.node.port0.erpp_port_status⟩,
      ⟨secondaryPort, r.node.port1.erpp_port_status⟩⟩
  { r with ring_id := ringId, level := level, node := node }

variable (stray : ℤ → ErppRing)

def erppDomainRingConfigureProcess (ringId nodeMode primaryPort secondaryPort level : ℕ)
    (d : ErppDomain) : ErppDomain :=
  let i : ℤ := ringId - 1
  d.setRing i
    ((d.ringAt stray i).configure ringId (NodeRole.ofMode (nodeMode % 2 ^ 8)) primaryPort
      secondaryPort level)

def erppDomainRingProcess (ringId : ℕ) (isenable : Bool) (d : ErppDomain) : ErppDomain :=
  let i : ℤ := ringId - 1
  d.setRing i { d.ringAt stray i with is_enable := isenable }

def erppTimerProcess (helloValue failValue : ℤ) (d : ErppDomain) : ErppDomain :=
  { d with
    hello_timer := helloValue, timer_count0 := helloValue, fail_timer := failValue,
    timer_count1 := failValue, fault_timer := failValue, timer_count2 := failValue }

def newDomain (domain : ℕ) : ErppDomain where
  domain_id := domain
  control_vlan_id := 0
  hello_timer := 3
  fail_timer := 9
  fault_timer := 9
  timer_count0 := 3
  timer_count1 := 9
  timer_count2 := 9
  flush_flag := false
  packet_ring := 0
  ring := fun _ => clearedRing

end Chanos.Erpp

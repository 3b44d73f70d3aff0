import Chanos.Erpp.Timer

/-!
# The ports of a master

A master keeps its secondary port closed while the ring is whole; that is what breaks the loop. From
its configuration on, both ports are open only in the status of a failed ring
(`master_open_failed`).
-/

namespace Chanos.Erpp

open Lib ErppDomain

namespace ErppRing

def MasterSafe (r : ErppRing) : Prop :=
  r.IsMaster → r.node.erpp_node_status ≠ preForwarding ∧
    (r.ports = (.forwarding, .forwarding) → r.node.erpp_node_status = nodeFail)

variable {r : ErppRing}

theorem MasterSafe.withPorts (h : r.MasterSafe) {s0 s1 : PortStatus}
    (hp : (s0, s1) ≠ (.forwarding, .forwarding)) : (r.withPorts s0 s1).MasterSafe :=
  fun hms => ⟨(h hms).1, fun ho => absurd ho hp⟩

theorem masterSafe_of_not_isMaster (h : ¬ r.IsMaster) : r.MasterSafe := fun hms => absurd hms h

theorem masterSafe_of_role {role : NodeRole} (hr : r.node.erpp_node_role = role)
    (hne : role ≠ .master) : r.MasterSafe :=
  masterSafe_of_not_isMaster fun hms => hne (hr.symm.trans hms)

theorem masterSafe_withStatus_nodeFail : (r.withStatus nodeFail).MasterSafe :=
  fun _ => ⟨(by decide : nodeFail ≠ preForwarding), fun _ => rfl⟩

theorem MasterSafe.linkup (h : r.MasterSafe) (netif : ℕ) : (r.linkup netif).MasterSafe := by
  unfold ErppRing.linkup
  by_cases hms : r.IsMaster
  · split
    · rcases r.ports with ⟨_ | _, _ | _⟩ <;> dsimp only
      · exact h.withPorts (by decide)
      · rw [if_neg fun hc => hc.2 hms]
        exact h
      · split
        · exact h.withPorts (by decide)
        · exact h
      · split <;> exact h.withPorts (by decide)
    · exact h
  · -- the branches of the other roles keep the role
    refine masterSafe_of_not_isMaster ?_
    split
    · rcases r.ports with ⟨_ | _, _ | _⟩ <;> dsimp only <;> (try split_ifs) <;> exact hms
    · exact hms

theorem MasterSafe.linkdown (h : r.MasterSafe) (netif : ℕ) : (r.linkdown netif).1.MasterSafe := by
  unfold ErppRing.linkdown
  by_cases hms : r.IsMaster
  · split
    · rcases r.ports with ⟨_ | _, _ | _⟩ <;> dsimp only <;> (try split_ifs) <;>
        first | exact h.withPorts (by decide) | exact h
    · exact h
  · refine masterSafe_of_not_isMaster ?_
    split
    · rcases r.ports with ⟨_ | _, _ | _⟩ <;> dsimp only <;> (try split_ifs) <;> exact hms
    · exact hms

theorem MasterSafe.closeSecondary (h : r.MasterSafe) : r.closeSecondary.MasterSafe := by
  unfold ErppRing.closeSecondary
  split
  · exact h.withPorts (by decide)
  · exact h

variable (host : Daemon) (pkt : ErppPacket)

theorem MasterSafe.received (h : r.MasterSafe) : (r.received host pkt).MasterSafe := by
  unfold ErppRing.received
  split
  · split_ifs
    · exact h
    · -- a hello of its own tells a failed master to close the secondary port
      exact fun _ => ⟨(by decide : nodeComplete ≠ preForwarding),
        fun ho => absurd ho (closeSecondary_ports r)⟩
    · exact h.closeSecondary
  split
  · split
    · -- a master does not wait for a flush, so none opens its ports
      by_cases hms : r.IsMaster
      · unfold completeFlush
        rw [if_neg (h hms).1]
        exact h
      · refine masterSafe_of_not_isMaster ?_
        unfold completeFlush
        split_ifs <;> exact hms
    · exact h
  split
  · split
    · exact masterSafe_withStatus_nodeFail
    · exact h
  split
  · split
    · next hr => exact masterSafe_of_role hr (by decide)
    · exact h
  · exact h

theorem MasterSafe.ticked (h : r.MasterSafe) (count1 count2 : ℤ) :
    (r.ticked count1 count2).MasterSafe := by
  unfold ErppRing.ticked
  split_ifs with _ ha
  · exact masterSafe_withStatus_nodeFail
  · exact masterSafe_of_role ha.2.1 (by decide)
  · exact h

theorem masterSafe_configure (r : ErppRing) (ringId primaryPort secondaryPort level : ℕ)
    (role : NodeRole) : (r.configure ringId role primaryPort secondaryPort level).MasterSafe := by
  intro hms
  cases role with
  | master => exact ⟨(by decide : nodeComplete ≠ preForwarding), nofun⟩
  | transmit | edge | assistantEdge | other code => cases hms

end ErppRing

open ErppRing

/-! ## Operations on a domain -/

inductive ErppOp
  | linkup (netif : ℕ)
  | linkdown (netif : ℕ)
  | packet (rx : ℕ) (pkt : ErppPacket)
  | tick
  | configure (ringId nodeMode primaryPort secondaryPort level : ℕ)
  | enable (ringId : ℕ) (isenable : Bool)
  | timers (helloValue failValue : ℤ)

open ErppOp

variable (host : Daemon)

def ErppOp.apply (d : ErppDomain) : ErppOp → ErppDomain
  | .linkup netif => linkupDomain netif d
  | .linkdown netif => (linkdownDomain host netif d).entry
  | .packet rx pkt => (rxDomain host rx pkt d).entry
  | .tick => (erppDomainTimerHandler host d).entry
  | .configure ringId nodeMode primaryPort secondaryPort level =>
    erppDomainRingConfigureProcess host.stray ringId nodeMode primaryPort secondaryPort level d
  | .enable ringId isenable => erppDomainRingProcess host.stray ringId isenable d
  | .timers helloValue failValue => erppTimerProcess helloValue failValue d

theorem masterSafe_apply {d : ErppDomain} {k : Fin 4} (h : (d.ring k).MasterSafe) (op : ErppOp) :
    ((op.apply host d).ring k).MasterSafe := by
  cases op with
  | linkup netif =>
    rw [apply, linkupDomain_ring]
    split
    · exact h.linkup netif
    · exact h
  | linkdown netif =>
    rw [apply, linkdownDomain_ring]
    split
    · exact h.linkdown netif
    · exact h
  | packet rx pkt =>
    rw [apply, rxDomain]
    split
    swap
    · exact h
    rw [rxHander_ring, heard]
    split_ifs with hid ha
    · exact h.received host pkt
    · exact masterSafe_of_role ha.2.2.2 (by decide)
    · exact h
  | tick =>
    obtain ⟨count2, hr⟩ := timerHandler_ring host d k
    rw [apply, hr]
    exact h.ticked _ _
  | configure ringId nodeMode primaryPort secondaryPort level =>
    rw [apply, erppDomainRingConfigureProcess, setRing_ring]
    split
    · exact masterSafe_configure _ _ _ _ _ _
    · exact h
  | enable ringId isenable =>
    rw [apply, erppDomainRingProcess, setRing_ring]
    split
    · next hi =>
      rw [hi, ringAt_val]
      exact h
    · exact h
  | timers helloValue failValue => exact h

theorem masterSafe_foldl_apply {d : ErppDomain} {k : Fin 4} (h : (d.ring k).MasterSafe)
    (ops : List ErppOp) : ((ops.foldl (apply host) d).ring k).MasterSafe := by
  induction ops generalizing d with
  | nil => exact h
  | cons op ops ih => exact ih (masterSafe_apply host h op)

def nodeMaster : ℕ := 0

theorem masterSafe_configured (d : ErppDomain) (k : Fin 4)
    (nodeMode primaryPort secondaryPort level : ℕ) :
    ((erppDomainRingConfigureProcess host.stray (k + 1) nodeMode primaryPort secondaryPort level
      d).ring k).MasterSafe := by
  rw [erppDomainRingConfigureProcess, id_sub_one, setRing_val_ring, Function.update_self]
  exact masterSafe_configure _ _ _ _ _ _

/-- From the configuration of a node as master of a ring on, through every sequence of link events,
packets, seconds and commands: where the node is master of the ring, enabled or not, and both ports
are open, the status is that of a failed ring. -/
theorem master_open_failed (d : ErppDomain) (k : Fin 4) (primaryPort secondaryPort level : ℕ)
    (ops : List ErppOp) (d' : ErppDomain)
    (hd' : d' = ops.foldl (apply host) (erppDomainRingConfigureProcess host.stray (k + 1)
      nodeMaster primaryPort secondaryPort level d))
    (hmaster : (d'.ring k).IsMaster)
    (hopen : (d'.ring k).ports = (.forwarding, .forwarding)) :
    (d'.ring k).node.erpp_node_status = nodeFail := by
  subst hd'
  have hsafe := masterSafe_foldl_apply host (masterSafe_configured host d k nodeMaster primaryPort
    secondaryPort level) ops
  exact (hsafe hmaster).2 hopen

/-- A ring that is enabled before it is configured has the role of a master and both ports open, and
it has not failed. -/
theorem unconfigured_master_open :
    let d := [ErppOp.enable 1 true].foldl (apply zeroDaemon) (newDomain 1)
    (d.ring 0).is_enable = true ∧ (d.ring 0).IsMaster ∧
      (d.ring 0).ports = (.forwarding, .forwarding) ∧
      (d.ring 0).node.erpp_node_status ≠ nodeFail := by
  decide

def failurePacket : ErppPacket := ⟨1, linkDownPacket, 1, 1, Bytes.six 0 0 0 0 0 1, 3, 9, 1⟩

/-- A master that has heard of a failure has both ports open, and the ring has failed. -/
theorem master_open_failed_announced :
    ((rxDomain zeroDaemon 2 failurePacket (erppDomainRingProcess zeroDaemon.stray 1 true
      (erppDomainRingConfigureProcess zeroDaemon.stray 1 nodeMaster 1 2 1
        (newDomain 1)))).entry.ring 0).node.erpp_node_status = nodeFail :=
  master_open_failed zeroDaemon (newDomain 1) 0 1 2 1 [.enable 1 true, .packet 2 failurePacket]
    _ rfl (by decide) (by decide)

end Chanos.Erpp

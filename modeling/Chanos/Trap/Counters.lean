import Mathlib.Data.Fintype.Basic

/-!
# The counters of the port traps

DHCP snooping and ARP inspection trap packets of a port while some VLAN with the feature contains
the port, or contains its trunk. Each feature keeps for every port and trunk the number of such
VLANs, `switch_port_control_count`.
-/

namespace Chanos.Trap

open Function

abbrev Port : Type := ℕ

abbrev Vid : Type := Fin 4096

inductive NetifType
  | eth
  | trunk
  | other
  deriving DecidableEq

structure VlanPorts where
  untag_ports : List Port
  tag_ports : List Port
  nodup : (untag_ports ++ tag_ports).Nodup

def VlanPorts.ports (vlan : VlanPorts) : List Port := vlan.untag_ports ++ vlan.tag_ports

section

variable {type : Port → NetifType}

/-- The tables `g_vlans` and `g_trunks`, the latter by the index of a trunk. -/
structure SwitchCfg (type : Port → NetifType) where
  vlans : Vid → Option VlanPorts
  trunks : Port → Option (List Port)
  trunk_type : ∀ t ports, trunks t = some ports → type t = .trunk
  member_type : ∀ t ports, trunks t = some ports → ∀ p ∈ ports, type p = .eth
  member_once : ∀ t ports t' ports', trunks t = some ports → trunks t' = some ports' →
    ∀ p ∈ ports, p ∈ ports' → t = t'
  member_untied : ∀ t ports v vlan, trunks t = some ports → vlans v = some vlan →
    ∀ p ∈ ports, p ∉ vlan.ports

namespace SwitchCfg

variable (sw : SwitchCfg type)

def InVlan (v : Vid) (p : Port) : Prop := ∃ vlan, sw.vlans v = some vlan ∧ p ∈ vlan.ports

def InTrunk (t p : Port) : Prop := ∃ ports, sw.trunks t = some ports ∧ p ∈ ports

end SwitchCfg

/-! ## The counters -/

/-- What `struct NPD_DHCP_SNP_GLOBAL_STATUS` and `struct arp_inspection_status` have in common:
whether the feature is enabled, the bit map of its VLANs, and the counters. -/
structure TrapCfg where
  enable : UInt32
  vlans : Vid → Bool
  switch_port_control_count : Port → UInt16

abbrev Counts : Type := Port → UInt16

variable (sw : SwitchCfg type) (count : Counts)

/-- `npd_dhcp_snp_modify_port_by_trunk` and `npd_arp_inspection_modify_port_by_trunk`. -/
def modifyPortByTrunk (trunk : Port) : Option Counts :=
  (sw.trunks trunk).map fun ports =>
    ports.foldl (fun count p => update count p (count trunk)) count

def writePort (p : Port) (n : UInt16) : Option Counts :=
  if type p = .trunk then modifyPortByTrunk sw (update count p n) p
  else some (update count p n)

def countUp (p : Port) : Option Counts :=
  writePort sw count p (count p + 1)

def countDown (p : Port) : Option Counts :=
  if 0 < count p then writePort sw count p (count p - 1) else some count

def VlanPorts.loop (vlan : VlanPorts) (round : Counts → Port → Option Counts) (count : Counts) :
    Option Counts := do
  let count ← vlan.untag_ports.foldlM round count
  vlan.tag_ports.foldlM round count

inductive ReturnCode
  | ok
  | error
  | alreadySet
  | notEnableGbl
  deriving DecidableEq

def enableVlan (vlan : VlanPorts) (vid : Vid) (cfg : TrapCfg) :
    ReturnCode × TrapCfg :=
  match vlan.loop (countUp sw) cfg.switch_port_control_count with
  | none => (.error, cfg)
  | some count =>
    (.ok, { cfg with
      vlans := update cfg.vlans vid true, switch_port_control_count := count })

def disableVlan (vlan : VlanPorts) (vid : Vid) (cfg : TrapCfg) :
    ReturnCode × TrapCfg :=
  match vlan.loop (countDown sw) cfg.switch_port_control_count with
  | none => (.error, cfg)
  | some count =>
    (.ok, { cfg with
      vlans := update cfg.vlans vid false, switch_port_control_count := count })

def npdDhcpSnpVlanEnableSet (is_enable : UInt8) (vlan_id : Vid)
    (cfg : TrapCfg) : ReturnCode × TrapCfg :=
  if cfg.enable = 1 then
    match sw.vlans vlan_id with
    | none => (.error, cfg)
    | some vlan =>
      if cfg.vlans vlan_id then
        if is_enable = 1 then (.alreadySet, cfg) else disableVlan sw vlan vlan_id cfg
      else
        if is_enable = 0 then (.alreadySet, cfg) else enableVlan sw vlan vlan_id cfg
  else (.notEnableGbl, cfg)

def npdArpInspectionSetVlanEndis (endis : UInt8) (vid : Vid)
    (cfg : TrapCfg) : ReturnCode × TrapCfg :=
  if endis.toNat = (cfg.vlans vid).toNat then (.alreadySet, cfg)
  else
    match sw.vlans vid with
    | none => (.error, cfg)
    | some vlan => if endis = 0 then disableVlan sw vlan vid cfg else enableVlan sw vlan vid cfg

/-! ## Events -/

inductive Father
  | vlan (vid : Vid)
  | trunk (t : Port)

inductive RelateEvent
  | join
  | leave

def joinVlan (son : Port) : Counts :=
  (countUp sw count son).getD (update count son (count son + 1))

def decrement (n : UInt16) : UInt16 := if 0 < n then n - 1 else n

def leaveVlan (son : Port) : Counts :=
  (writePort sw count son (decrement (count son))).getD
    (update count son (decrement (count son)))

def npdDhcpSnpRelateEvent (father : Father) (son : Port)
    (event : RelateEvent) (cfg : TrapCfg) : TrapCfg :=
  match father, event with
  | .vlan vid, .join =>
    if cfg.vlans vid then
      { cfg with switch_port_control_count := joinVlan sw cfg.switch_port_control_count son }
    else cfg
  | .vlan vid, .leave =>
    if cfg.vlans vid then
      { cfg with switch_port_control_count := leaveVlan sw cfg.switch_port_control_count son }
    else cfg
  | .trunk t, .join =>
    if type son = .eth ∧ 0 < cfg.switch_port_control_count t then
      { cfg with
        switch_port_control_count :=
          update cfg.switch_port_control_count son (cfg.switch_port_control_count t) }
    else cfg
  | .trunk _, .leave =>
    if type son = .eth then
      { cfg with
        switch_port_control_count := update cfg.switch_port_control_count son 0 }
    else cfg

def npdArpsnpRelateEvent (father : Father) (son : Port)
    (event : RelateEvent) (cfg : TrapCfg) : TrapCfg :=
  match father, event with
  | .vlan vid, .join =>
    if type son ≠ .other ∧ cfg.vlans vid then
      { cfg with switch_port_control_count := joinVlan sw cfg.switch_port_control_count son }
    else cfg
  | .vlan vid, .leave =>
    if type son ≠ .other ∧ cfg.vlans vid then
      { cfg with switch_port_control_count := leaveVlan sw cfg.switch_port_control_count son }
    else cfg
  | .trunk t, .join =>
    if type son = .eth ∧ 0 < cfg.switch_port_control_count t then
      { cfg with
        switch_port_control_count :=
          update cfg.switch_port_control_count son (cfg.switch_port_control_count t) }
    else cfg
  | .trunk t, .leave =>
    if type son = .eth ∧ 0 < cfg.switch_port_control_count t then
      { cfg with
        switch_port_control_count := update cfg.switch_port_control_count son 0 }
    else cfg

def trapUpdate (type : Port → NetifType) (new old : TrapCfg) (traps : Port → Bool) (p : Port) :
    Bool :=
  if type p = .eth then
    if new.enable ≠ old.enable then
      if new.switch_port_control_count p ≠ 0 then decide (new.enable ≠ 0) else traps p
    else if new.enable ≠ 0 then
      if new.switch_port_control_count p ≠ 0 ∧ old.switch_port_control_count p = 0 then true
      else if new.switch_port_control_count p = 0 ∧ old.switch_port_control_count p ≠ 0 then false
      else traps p
    else traps p
  else traps p

/-! ## The system -/

/-- The state of a feature on a switch: the tables of the switch, the status entry, and the traps in
the hardware. -/
structure TrapState (type : Port → NetifType) where
  sw : SwitchCfg type
  cfg : TrapCfg
  traps : Port → Bool

inductive TrapEvent
  | command (endis : UInt8) (vid : Vid)
  | relate (father : Father) (son : Port) (event : RelateEvent)

def SwitchCfg.Joins (son : Port) (sw' : SwitchCfg type) : Father → Prop
  | .vlan v => ¬sw.InVlan v son ∧ sw'.trunks = sw.trunks ∧
      ∀ v' p, sw'.InVlan v' p ↔ sw.InVlan v' p ∨ v' = v ∧ p = son
  | .trunk t => ¬sw.InTrunk t son ∧ sw'.vlans = sw.vlans ∧
      ∀ t' p, sw'.InTrunk t' p ↔ sw.InTrunk t' p ∨ t' = t ∧ p = son

def SwitchCfg.Reports (father : Father) (son : Port) (event : RelateEvent)
    (sw' : SwitchCfg type) : Prop :=
  match event with
  | .join => sw.Joins son sw' father
  | .leave => sw'.Joins son sw father

def TrapStep (command : SwitchCfg type → UInt8 → Vid → TrapCfg → ReturnCode × TrapCfg)
    (relate : SwitchCfg type → Father → Port → RelateEvent → TrapCfg → TrapCfg)
    (s : TrapState type) (ev : TrapEvent) (s' : TrapState type) : Prop :=
  s'.traps = trapUpdate type s'.cfg s.cfg s.traps ∧
  match ev with
  | .command endis vid => s'.sw = s.sw ∧ s'.cfg = (command s.sw endis vid s.cfg).2
  | .relate father son event =>
    s.sw.Reports father son event s'.sw ∧ s'.cfg = relate s'.sw father son event s.cfg

def DhcpTrapStep : TrapState type → TrapEvent → TrapState type → Prop :=
  TrapStep npdDhcpSnpVlanEnableSet npdDhcpSnpRelateEvent

def ArpTrapStep : TrapState type → TrapEvent → TrapState type → Prop :=
  TrapStep npdArpInspectionSetVlanEndis npdArpsnpRelateEvent

end

end Chanos.Trap

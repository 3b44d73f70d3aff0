import Chanos.Arp.Aging
import Chanos.Arp.Packet

/-!
# Learning and configuring ARP entries

`npd_arp_snooping_learning` puts the sender of a packet into the table, or a drop entry, and
`npd_arp_snooping_create_static_arp` a configured entry. In no run of the system are there two
entries with one address (`oneOwner_run`): each step but these two leaves only keys that were there
(`Shrinks`), and those add one whose address is in none of the others.
-/

namespace Chanos.Arp

open Lib Dhcp List OrderedTable OrderedTable.Shrinks ArpItem

variable {p : ArpProduct}

def npdNetifVlanType : UInt32 := 3

def npdNetifTrunkType : UInt32 := 4

def npdNetifWirelessType : UInt32 := 0xE

structure L3IntfCtrl where
  bind : Bool
  up : Bool

structure ArpEnv where
  l3intf_ifindex : UInt32 → Option L3IntfCtrl
  npd_intf_netif_get_by_ip : UInt32 → Bool
  npd_intf_gindex_exist_check : UInt32 → Option UInt32
  l3intf_up : UInt32 → Bool
  netif_up : UInt32 → Bool
  npd_netif_vlan_get_vid : UInt32 → UInt16

section

variable (env : ArpEnv) (now timeout : UInt32) (tbl : ArpTable p)

def learningInsert (item : ArpItem) (l3intf_bind status : Bool) :
    ArpTable p × ArpReturnCode :=
  let tbl :=
    if p.table_size ≤ npdArpSnoopingCountAll tbl then npdArpSnoopingDropHandle now timeout tbl else tbl
  if p.table_size > npdArpSnoopingCountAll tbl then
    if l3intf_bind then (tbl, .error)
    else
      let r := tbl.insert item
      (r.1, if r.2 then .success else .error)
  else (tbl, if status then .success else .error)

def npdArpSnoopingLearning (item : ArpItem) : ArpTable p × ArpReturnCode :=
  let l3intf_ctrl := env.l3intf_ifindex item.l3Index
  let l3intf_bind := l3intf_ctrl.any (·.bind)
  let item := if l3intf_ctrl.any (·.up) then item else { item with isValid := 0 }
  match npdArpSnoopingFindItemByip tbl item.ipAddr with
  | none => learningInsert now timeout tbl item l3intf_bind false
  | some dupItem =>
    let replace := learningInsert now timeout (tbl.erase dupItem.key) item l3intf_bind true
    if dupItem.isStatic ≠ 1 then
      if !npdArpSnoopingCompare item dupItem then
        if p.have_route && l3intf_bind then learningInsert now timeout tbl item l3intf_bind false
        else replace
      else if dupItem.Drop then
        if p.have_route && l3intf_bind then learningInsert now timeout tbl item l3intf_bind false
        else replace
      else if ¬ dupItem.Hit then
        (tbl.update { dupItem with flag := dupItem.flag ||| arpsnpFlagHit, time := item.time }, .success)
      else (tbl, .success)
    else if npdIfindexType dupItem.ifIndex = npdNetifWirelessType then
      if !npdArpSnoopingCompare item dupItem then replace else (tbl, .success)
    else if !npdArpSnoopingCompare item dupItem then (tbl, .error)
    else (tbl, .success)

def npdArpSnoopDropCheck (dbItem : ArpItem) (netif_index dip : UInt32) :
    ArpTable p :=
  if (npdArpSnoopingFindItemByip tbl dip).isSome then tbl
  else if !npdArpSnoopingIpValidCheck p dip then tbl
  else if env.npd_intf_netif_get_by_ip dip then tbl
  else
    (npdArpSnoopingLearning env now timeout tbl
      { dbItem with
        ipAddr := dip, ifIndex := netif_index, flag := dbItem.flag ||| arpsnpFlagDrop, isValid := 1 }).1

def npdPacketTxHookArp (arp_drop_enable : Bool) (tbl : ArpTable p) (opCode : UInt16)
    (l3intf dip : UInt32) : ArpTable p :=
  if opCode ≠ arpRequest then tbl
  else if !arp_drop_enable then tbl
  else if (npdArpSnoopingFindItemByip tbl dip).isSome then tbl
  else
    (npdArpSnoopingLearning env now timeout tbl
      { zero with
        ipAddr := dip, l3Index := l3intf, flag := arpsnpFlagDrop ||| arpsnpFlagHit, isValid := 1 }).1

structure ArpReceived where
  netif_index : UInt32
  vid : UInt16
  isTagged : UInt8
  packet : ArpPacket
  l3intf : Option (UInt32 × L3Intf)
  learn_mode : UInt32
  inspection_status : Bool
  inspection_check : Bool

variable (r : ArpReceived)

def ArpReceived.l3Check (p : ArpProduct) : Option (UInt32 × Bool) :=
  match r.l3intf with
  | none => if !npdArpSnoopingIpValidCheck p r.packet.sip then none else some (0xFFFFFFFF, false)
  | some (l3Index, intf) =>
    match npdArpSnoopingIpLegalityCheck p intf r.packet.sip r.packet.dip with
    | .success => some (l3Index, true)
    | .conflictedIp => none
    | .checkIpError => none
    | _ => some (l3Index, false)

def ArpReceived.wireless : Bool := npdIfindexType r.netif_index = npdNetifWirelessType

def ArpReceived.dbItem (now l3Index : UInt32) (arpValid : Bool) : ArpItem :=
  { zero with
    l3Index := l3Index
    isStatic := if r.wireless then 1 else 0
    isValid := if arpValid then 1 else 0
    ipAddr := r.packet.sip
    isTagged := r.isTagged
    vid := r.vid
    ifIndex := r.netif_index
    flag := arpsnpFlagHit
    time := now
    mac := r.packet.smac }

def npdArpPacketRxProcess : ArpTable p × ArpReturnCode :=
  if r.learn_mode = 0 then (tbl, .success)
  else if !npdArpSnoopingMacLegalityCheck r.packet then (tbl, .error)
  else if r.inspection_status && !r.inspection_check then (tbl, .error)
  else
    match r.l3Check p with
    | none => (tbl, .error)
    | some (l3Index, arpValid) =>
      if !arpValid && !r.wireless then (tbl, .error)
      else
        let learned := npdArpSnoopingLearning env now timeout tbl (r.dbItem now l3Index arpValid)
        let addrs := (r.l3intf.map fun intf => intf.2.addrs).getD []
        (learned.1,
          if learned.2 ≠ .success then learned.2
          else if npdArpSnoopingIpGatewayCheck r.packet.dip addrs then .success
          else .error)

/-! ## Configuration -/

structure StaticArp where
  L3ifindex : UInt32
  ipAddr : UInt32
  mac : Bytes 6
  vid : UInt16
  eth_g_index : UInt32
  isTagged : UInt8
  status : UInt8
  kern_created : Bool

def StaticArp.arpItem (r : StaticArp) : ArpItem :=
  { zero with
    l3Index := r.L3ifindex
    ipAddr := r.ipAddr
    isStatic := 1
    isTagged := r.isTagged
    isValid := if r.kern_created then r.status else 0
    vid := r.vid
    ifIndex := r.eth_g_index
    mac := r.mac }

def createStaticInsert (r : StaticArp) : ArpTable p × ArpReturnCode :=
  match npdArpSnoopingFindItemByip tbl r.ipAddr with
  | none => ((tbl.insert r.arpItem).1, .success)
  | some arpInfo =>
    if arpInfo.isStatic = 0 then (((tbl.erase arpInfo.key).insert r.arpItem).1, .success)
    else (tbl, .staticExist)

def npdArpSnoopingCreateStaticArp (r : StaticArp) : ArpTable p × ArpReturnCode :=
  if p.table_size ≤ npdArpSnoopingCountAll tbl then
    let tbl := npdArpSnoopingDropHandle now timeout tbl
    if p.table_size ≤ npdArpSnoopingCountAll tbl then (tbl, .staticArpFull)
    else createStaticInsert tbl r
  else createStaticInsert tbl r

def npdArpSnoopingDelStaticByMacL3index (ipAddr : UInt32) (mac : Bytes 6)
    (eth_g_index : UInt32) : ArpTable p × ArpReturnCode :=
  match npdArpSnoopingFindItemByip tbl ipAddr with
  | none => (tbl, .stasticNotexist)
  | some arpInfo =>
    if arpInfo.isStatic ≠ 1 then (tbl, .stasticNotexist)
    else if arpInfo.ifIndex ≠ eth_g_index then (tbl, .portNotmatch)
    else if arpInfo.mac ≠ mac then (tbl, .notconsistent)
    else npdArpSnoopingDelAll tbl arpInfo

def npdArpSnoopingDyntostatic (byIp : Bool) (tbl : ArpTable p) (item : ArpItem) : ArpTable p :=
  if item.isStatic = 1 ∨ item.Drop then tbl
  else if byIp then tbl.update { item with isStatic := 1 }
  else tbl.requeue { item with isStatic := 1 }

def npdDbusIpDyntostaticArp (selection : ArpSelection) (tbl : ArpTable p) : ArpTable p :=
  let byIp : Bool := match selection with
    | .byFilter (.byMac _) => false
    | .byFilter (.byIfindex _) => false
    | _ => true
  processSelection selection (npdArpSnoopingDyntostatic byIp) tbl

def npdArpSnoopingStaticValidSet (flag : Bool) (tbl : ArpTable p) (item : ArpItem) : ArpTable p :=
  let isValid : UInt8 := if flag then 1 else 0
  if item.isStatic ≠ 1 ∨ isValid = item.isValid then tbl
  else if flag && !(env.l3intf_up item.l3Index && env.netif_up item.ifIndex) then tbl
  else tbl.update { item with isValid }

def npdArpSnoopingStaticValidSetBy (filter : ArpFilter) (flag : Bool) (tbl : ArpTable p) : ArpTable p :=
  tbl.traversal filter.accepts (npdArpSnoopingStaticValidSet env flag)

/-! ## Events of interfaces -/

inductive PortNotifier
  | discard
  | linkdown
  | delete
  | l2delete
  | linkup
  | forwarding
  | l3delete
  | l3linkdown
  | l3linkup
  deriving DecidableEq

def isEthOrTrunk (netif_index : UInt32) : Bool :=
  npdIfindexType netif_index = npdNetifEthType ∨ npdIfindexType netif_index = npdNetifTrunkType

def npdArpsnpNotifyEvent (netif_index : UInt32) : PortNotifier → ArpTable p
  | .discard | .linkdown =>
    if isEthOrTrunk netif_index then
      npdArpSnoopingDelBy (.byIfindex netif_index)
        (npdArpSnoopingStaticValidSetBy env (.byIfindex netif_index) false tbl)
    else tbl
  | .delete | .l2delete =>
    if isEthOrTrunk netif_index then
      npdArpSnoopingDelBy (.byIfindex netif_index)
        (npdArpSnoopingDelStaticBy (.byIfindex netif_index) tbl)
    else tbl
  | .linkup | .forwarding =>
    if isEthOrTrunk netif_index then npdArpSnoopingStaticValidSetBy env (.byIfindex netif_index) true tbl
    else tbl
  | .l3delete =>
    match env.npd_intf_gindex_exist_check netif_index with
    | some l3index =>
      npdArpSnoopingDelBy (.byL3index l3index) (npdArpSnoopingDelStaticBy (.byL3index l3index) tbl)
    | none => tbl
  | .l3linkdown =>
    match env.npd_intf_gindex_exist_check netif_index with
    | some l3index =>
      npdArpSnoopingDelBy (.byL3index l3index)
        (npdArpSnoopingStaticValidSetBy env (.byL3index l3index) false tbl)
    | none => tbl
  | .l3linkup =>
    match env.npd_intf_gindex_exist_check netif_index with
    | some l3index => npdArpSnoopingStaticValidSetBy env (.byL3index l3index) true tbl
    | none => tbl

def npdArpsnpRelateLeave (father_index son_index : UInt32) : ArpTable p :=
  if npdIfindexType father_index = npdNetifVlanType && isEthOrTrunk son_index then
    let filter := ArpFilter.byIfindexVid son_index (env.npd_netif_vlan_get_vid father_index)
    npdArpSnoopingDelBy filter (npdArpSnoopingDelStaticBy filter tbl)
  else tbl

end

/-! ## The system -/

inductive ArpEvent
  | rxPacket (env : ArpEnv) (r : ArpReceived)
  | dropCheck (env : ArpEnv) (dbItem : ArpItem) (netif_index dip : UInt32)
  | txHook (env : ArpEnv) (opCode : UInt16) (l3intf dip : UInt32)
  | staticArp (r : StaticArp)
  | noStaticArp (selection : ArpSelection)
  | delStaticArp (ipAddr : UInt32) (mac : Bytes 6) (eth_g_index : UInt32)
  | delBy (filter : ArpFilter)
  | delStaticBy (filter : ArpFilter)
  | clearArp (selection : ArpSelection)
  | dyntostatic (selection : ArpSelection)
  | staticValid (env : ArpEnv) (filter : ArpFilter) (flag : Bool)
  | notify (env : ArpEnv) (netif_index : UInt32) (evt : PortNotifier)
  | relateLeave (env : ArpEnv) (father_index son_index : UInt32)
  | setAgetime (timeout flag : UInt32)
  | setDrop (arp_drop_enable : Bool)
  | sync (isMasterActive : Bool) (routes : List UInt32)

def ArpState.step (s : ArpState p) : ArpEvent → ArpState p
  | .rxPacket env r =>
    { s with tbl := (npdArpPacketRxProcess env s.arp_absolute_time s.timeout s.tbl r).1 }
  | .dropCheck env dbItem netif_index dip =>
    { s with
      tbl := npdArpSnoopDropCheck env s.arp_absolute_time s.timeout s.tbl dbItem netif_index dip }
  | .txHook env opCode l3intf dip =>
    { s with
      tbl := npdPacketTxHookArp env s.arp_absolute_time s.timeout s.arp_drop_enable s.tbl opCode
        l3intf dip }
  | .staticArp r =>
    { s with tbl := (npdArpSnoopingCreateStaticArp s.arp_absolute_time s.timeout s.tbl r).1 }
  | .noStaticArp selection => { s with tbl := npdDbusNoIpStaticArp selection s.tbl }
  | .delStaticArp ipAddr mac eth_g_index =>
    { s with tbl := (npdArpSnoopingDelStaticByMacL3index s.tbl ipAddr mac eth_g_index).1 }
  | .delBy filter => { s with tbl := npdArpSnoopingDelBy filter s.tbl }
  | .delStaticBy filter => { s with tbl := npdArpSnoopingDelStaticBy filter s.tbl }
  | .clearArp selection => { s with tbl := npdDbusClearArp selection s.tbl }
  | .dyntostatic selection => { s with tbl := npdDbusIpDyntostaticArp selection s.tbl }
  | .staticValid env filter flag =>
    { s with tbl := npdArpSnoopingStaticValidSetBy env filter flag s.tbl }
  | .notify env netif_index evt => { s with tbl := npdArpsnpNotifyEvent env s.tbl netif_index evt }
  | .relateLeave env father_index son_index =>
    { s with tbl := npdArpsnpRelateLeave env s.tbl father_index son_index }
  | .setAgetime timeout flag =>
    -- `npd_dbus_ip_set_arp_agetime`.
    { s with timeout := if flag = 1 then timeout else npdArpAgeAgeCnt }
  | .setDrop arp_drop_enable => { s with arp_drop_enable }
  | .sync isMasterActive routes => s.sync isMasterActive routes

def ArpState.run (s : ArpState p) (events : List ArpEvent) : ArpState p := events.foldl ArpState.step s

/-! ## One owner for an address -/

/-- No two entries have one IP address. -/
def OneOwner (tbl : ArpTable p) : Prop := (tbl.items.map ipAddr).Nodup

section

variable {tbl tbl' : ArpTable p} {item dupItem : ArpItem}

theorem oneOwner_iff : OneOwner tbl ↔
    ∀ k ∈ tbl.items.map key, ∀ k' ∈ tbl.items.map key, k.ipAddr = k'.ipAddr → k = k' := by
  have hma : tbl.items.map ipAddr = (tbl.items.map key).map ArpKey.ipAddr := by
    rw [map_map]
    rfl
  unfold OneOwner
  rw [hma]
  exact ⟨fun h k hk k' hk' => inj_on_of_nodup_map h hk hk', tbl.nodup.map_on⟩

theorem OneOwner.eq (h : OneOwner tbl) (hit : item ∈ tbl.items) (hd : dupItem ∈ tbl.items)
    (hip : item.ipAddr = dupItem.ipAddr) : item = dupItem :=
  inj_on_of_nodup_map h hit hd hip

theorem OneOwner.shrinks (h : OneOwner tbl) (hsh : tbl.Shrinks tbl') : OneOwner tbl' := by
  rw [oneOwner_iff] at h ⊢
  exact fun k hk k' hk' => h k (hsh hk) k' (hsh hk')

theorem OneOwner.insert (h : OneOwner tbl) (hfr : ∀ x ∈ tbl.items, x.ipAddr ≠ item.ipAddr) :
    OneOwner (tbl.insert item).1 := by
  rw [oneOwner_iff] at h ⊢
  have hfr' : ∀ k ∈ tbl.items.map key, k.ipAddr ≠ item.ipAddr := by
    intro k hk
    obtain ⟨x, hx, rfl⟩ := mem_map.mp hk
    exact hfr x hx
  intro k hk k' hk' hip
  rcases mem_cons.mp (tbl.map_key_insert_subset item hk) with rfl | hme <;>
    rcases mem_cons.mp (tbl.map_key_insert_subset item hk') with rfl | hme'
  · rfl
  · exact absurd hip.symm (hfr' k' hme')
  · exact absurd hip (hfr' k hme)
  · exact h k hme k' hme' hip

theorem OneOwner.erase_free (h : OneOwner tbl) (hd : dupItem ∈ tbl.items) :
    ∀ x ∈ (tbl.erase dupItem.key).items, x.ipAddr ≠ dupItem.ipAddr := by
  intro x hx hip
  obtain ⟨hme, hke⟩ := mem_erase.mp hx
  exact hke (congrArg key (h.eq hme hd hip))

theorem free_of_shrinks (hsh : tbl.Shrinks tbl') {ipAddr : UInt32}
    (hfr : ∀ x ∈ tbl.items, x.ipAddr ≠ ipAddr) : ∀ x ∈ tbl'.items, x.ipAddr ≠ ipAddr := by
  intro x hx
  obtain ⟨y, hy, hke⟩ := mem_map.mp (hsh (mem_map_of_mem hx))
  rw [show x.ipAddr = y.ipAddr from congrArg ArpKey.ipAddr hke.symm]
  exact hfr y hy

end

/-! ### The steps -/

section

variable {env : ArpEnv} {now timeout : UInt32} {tbl : ArpTable p} {item : ArpItem}

theorem learningInsert_rule {P : ArpTable p → Prop} {l3intf_bind : Bool} (status : Bool)
    (h : ∀ tbl₁, tbl₁ = tbl ∨ tbl₁ = npdArpSnoopingDropHandle now timeout tbl →
      P tbl₁ ∧ (l3intf_bind = false → P (tbl₁.insert item).1)) :
    P (learningInsert now timeout tbl item l3intf_bind status).1 := by
  obtain ⟨ho, hi⟩ := h (if p.table_size ≤ npdArpSnoopingCountAll tbl then
    npdArpSnoopingDropHandle now timeout tbl else tbl) (by split_ifs <;> simp)
  unfold learningInsert
  generalize (if p.table_size ≤ npdArpSnoopingCountAll tbl then
    npdArpSnoopingDropHandle now timeout tbl else tbl) = tbl₁ at *
  dsimp only
  split
  · cases l3intf_bind with
    | true => exact ho
    | false => exact hi rfl
  · exact ho

theorem shrinks_of_dropped {tbl₁ : ArpTable p}
    (h : tbl₁ = tbl ∨ tbl₁ = npdArpSnoopingDropHandle now timeout tbl) : tbl.Shrinks tbl₁ := by
  rcases h with rfl | rfl
  · exact refl tbl₁
  · exact (ages_dropHandle tbl).shrinks

theorem shrinks_learningInsert_bind (status : Bool) :
    tbl.Shrinks (learningInsert now timeout tbl item true status).1 :=
  learningInsert_rule status fun _ htbl => ⟨shrinks_of_dropped htbl, fun hf => by cases hf⟩

theorem OneOwner.insertLearned (h : OneOwner tbl) (hfr : ∀ x ∈ tbl.items, x.ipAddr ≠ item.ipAddr)
    (l3intf_bind status : Bool) :
    OneOwner (learningInsert now timeout tbl item l3intf_bind status).1 := by
  refine learningInsert_rule status fun tbl₁ htbl => ?_
  have hsh := shrinks_of_dropped htbl
  exact ⟨h.shrinks hsh, fun _ => (h.shrinks hsh).insert (free_of_shrinks hsh hfr)⟩

/-- What learning does to the table: nothing, or an insertion, after the entry with that address is
deleted or with no such entry or on a bound interface, or an update of that entry. -/
theorem learning_rule {P : ArpTable p → Prop} (ho : P tbl)
    (hi : ∀ item' l3intf_bind, item'.ipAddr = item.ipAddr →
      (∀ x ∈ tbl.items, x.ipAddr ≠ item.ipAddr) ∨ l3intf_bind = true →
      P (learningInsert now timeout tbl item' l3intf_bind false).1)
    (hr : ∀ item' l3intf_bind dupItem, item'.ipAddr = item.ipAddr → dupItem ∈ tbl.items →
      dupItem.ipAddr = item.ipAddr →
      P (learningInsert now timeout (tbl.erase dupItem.key) item' l3intf_bind true).1)
    (hu : ∀ dupItem, dupItem.ipAddr = item.ipAddr → P (tbl.update dupItem)) :
    P (npdArpSnoopingLearning env now timeout tbl item).1 := by
  unfold npdArpSnoopingLearning
  dsimp only
  generalize hit' : (if (env.l3intf_ifindex item.l3Index).any (·.up) then item
    else { item with isValid := 0 }) = item'
  generalize (env.l3intf_ifindex item.l3Index).any (·.bind) = l3intf_bind
  have hip : item'.ipAddr = item.ipAddr := by
    rw [← hit']
    split_ifs <;> rfl
  cases hf : npdArpSnoopingFindItemByip tbl item'.ipAddr with
  | none => exact hi _ _ hip (.inl (hip ▸ findItemByip_eq_none_iff.mp hf))
  | some dupItem =>
    obtain ⟨hd, hdi⟩ := mem_of_findItemByip hf
    have hre := hr _ l3intf_bind dupItem hip hd (hdi.trans hip)
    have hbd (hb : (p.have_route && l3intf_bind) = true) :=
      hi _ l3intf_bind hip (.inr (Bool.and_eq_true_iff.mp hb).2)
    dsimp only
    split_ifs with hsa hcmp hb hdr hb hh hwl hcmp hcmp
    · exact hbd hb
    · exact hre
    · exact hbd hb
    · exact hre
    · exact ho
    · exact hu _ (hdi.trans hip)
    · exact hre
    · exact ho
    · exact ho
    · exact ho

theorem OneOwner.learning (h : OneOwner tbl) (item : ArpItem) :
    OneOwner (npdArpSnoopingLearning env now timeout tbl item).1 := by
  refine learning_rule h (fun item' l3intf_bind hip hfr => ?_)
    (fun item' l3intf_bind dupItem hip hd hdi => ?_) fun _ _ => h.shrinks (tbl.shrinks_update _)
  · rcases hfr with hfr | rfl
    · exact h.insertLearned (hip ▸ hfr) l3intf_bind false
    · exact h.shrinks (shrinks_learningInsert_bind false)
  · refine (h.shrinks (tbl.shrinks_erase dupItem.key)).insertLearned ?_ l3intf_bind true
    rw [hip, ← hdi]
    exact h.erase_free hd

section

variable {P : ArpTable p → Prop} (ho : P tbl)
  (hl : ∀ item, P (npdArpSnoopingLearning env now timeout tbl item).1)
include ho hl

theorem npdArpPacketRxProcess_rule (r : ArpReceived) :
    P (npdArpPacketRxProcess env now timeout tbl r).1 := by
  unfold npdArpPacketRxProcess
  split_ifs with hmd hma hi
  · exact ho
  · exact ho
  · exact ho
  · cases r.l3Check p with
    | none => exact ho
    | some check =>
      dsimp only
      split
      · exact ho
      · exact hl _

theorem snoopDropCheck_rule (dbItem : ArpItem) (netif_index dip : UInt32) :
    P (npdArpSnoopDropCheck env now timeout tbl dbItem netif_index dip) := by
  unfold npdArpSnoopDropCheck
  split_ifs
  · exact ho
  · exact ho
  · exact ho
  · exact hl _

theorem packetTxHookArp_rule (arp_drop_enable : Bool) (opCode : UInt16) (l3intf dip : UInt32) :
    P (npdPacketTxHookArp env now timeout arp_drop_enable tbl opCode l3intf dip) := by
  unfold npdPacketTxHookArp
  split_ifs
  · exact ho
  · exact ho
  · exact ho
  · exact hl _

end

theorem OneOwner.createStaticInsert (h : OneOwner tbl) (r : StaticArp) :
    OneOwner (createStaticInsert tbl r).1 := by
  unfold Arp.createStaticInsert
  cases hf : npdArpSnoopingFindItemByip tbl r.ipAddr with
  | none => exact h.insert (findItemByip_eq_none_iff.mp hf)
  | some arpInfo =>
    obtain ⟨hi, hip⟩ := mem_of_findItemByip hf
    dsimp only
    split_ifs
    · refine (h.shrinks (tbl.shrinks_erase arpInfo.key)).insert ?_
      rw [show r.arpItem.ipAddr = arpInfo.ipAddr from hip.symm]
      exact h.erase_free hi
    · exact h

theorem OneOwner.createStatic (h : OneOwner tbl) (r : StaticArp) :
    OneOwner (npdArpSnoopingCreateStaticArp now timeout tbl r).1 := by
  have hd : OneOwner (npdArpSnoopingDropHandle now timeout tbl) := h.shrinks (ages_dropHandle tbl).shrinks
  unfold npdArpSnoopingCreateStaticArp
  dsimp only
  split_ifs
  · exact hd
  · exact hd.createStaticInsert r
  · exact h.createStaticInsert r

/-! ### The steps that add no key -/

theorem shrinks_del (tbl : ArpTable p) (item : ArpItem) : tbl.Shrinks (npdArpSnoopingDel tbl item).1 := by
  unfold npdArpSnoopingDel
  split_ifs
  · exact refl tbl
  · exact tbl.shrinks_erase item.key

theorem shrinks_delStatic (tbl : ArpTable p) (item : ArpItem) :
    tbl.Shrinks (npdArpSnoopingDelStatic tbl item).1 := by
  unfold npdArpSnoopingDelStatic
  split_ifs
  · exact refl tbl
  · exact tbl.shrinks_erase item.key

theorem shrinks_dyntostatic (byIp : Bool) (tbl : ArpTable p) (item : ArpItem) :
    tbl.Shrinks (npdArpSnoopingDyntostatic byIp tbl item) := by
  unfold npdArpSnoopingDyntostatic
  split_ifs
  · exact refl tbl
  · exact tbl.shrinks_update _
  · exact tbl.shrinks_requeue _

theorem shrinks_staticValidSet (env : ArpEnv) (flag : Bool) (tbl : ArpTable p) (item : ArpItem) :
    tbl.Shrinks (npdArpSnoopingStaticValidSet env flag tbl item) := by
  unfold npdArpSnoopingStaticValidSet
  dsimp only
  split_ifs
  all_goals first
    | exact refl tbl
    | exact tbl.shrinks_update _

theorem shrinks_delStaticByMacL3index (tbl : ArpTable p) (ipAddr : UInt32) (mac : Bytes 6)
    (eth_g_index : UInt32) :
    tbl.Shrinks (npdArpSnoopingDelStaticByMacL3index tbl ipAddr mac eth_g_index).1 := by
  unfold npdArpSnoopingDelStaticByMacL3index
  cases npdArpSnoopingFindItemByip tbl ipAddr with
  | none => exact refl tbl
  | some arpInfo =>
    dsimp only
    split_ifs
    · exact refl tbl
    · exact refl tbl
    · exact refl tbl
    · exact tbl.shrinks_erase arpInfo.key

theorem shrinks_processSelection {processor : ArpTable p → ArpItem → ArpTable p}
    (h : ∀ tbl item, OrderedTable.Shrinks tbl (processor tbl item)) (selection : ArpSelection)
    (tbl : ArpTable p) : tbl.Shrinks (processSelection selection processor tbl) := by
  unfold processSelection
  cases selection with
  | byIp ipAddr =>
    dsimp only
    cases npdArpSnoopingFindItemByip tbl ipAddr with
    | none => exact refl tbl
    | some item => exact h tbl item
  | byFilter filter => exact shrinks_traversal h filter.accepts tbl

theorem shrinks_delBy (filter : ArpFilter) (tbl : ArpTable p) :
    tbl.Shrinks (npdArpSnoopingDelBy filter tbl) :=
  shrinks_traversal shrinks_del filter.accepts tbl

theorem shrinks_delStaticBy (filter : ArpFilter) (tbl : ArpTable p) :
    tbl.Shrinks (npdArpSnoopingDelStaticBy filter tbl) :=
  shrinks_traversal shrinks_delStatic filter.accepts tbl

theorem shrinks_staticValidSetBy (env : ArpEnv) (filter : ArpFilter) (flag : Bool) (tbl : ArpTable p) :
    tbl.Shrinks (npdArpSnoopingStaticValidSetBy env filter flag tbl) :=
  shrinks_traversal (shrinks_staticValidSet env flag) filter.accepts tbl

theorem shrinks_notifyEvent (env : ArpEnv) (tbl : ArpTable p) (netif_index : UInt32)
    (evt : PortNotifier) : tbl.Shrinks (npdArpsnpNotifyEvent env tbl netif_index evt) := by
  have hp : ∀ tbl' : ArpTable p, tbl.Shrinks tbl' →
      tbl.Shrinks (if isEthOrTrunk netif_index then tbl' else tbl) := by
    intro tbl' h
    split_ifs
    · exact h
    · exact refl tbl
  have hl3 : ∀ f : UInt32 → ArpTable p, (∀ l3index, tbl.Shrinks (f l3index)) →
      tbl.Shrinks (match env.npd_intf_gindex_exist_check netif_index with
        | some l3index => f l3index
        | none => tbl) := by
    intro f h
    cases env.npd_intf_gindex_exist_check netif_index with
    | some l3index => exact h l3index
    | none => exact refl tbl
  cases evt with
  | discard | linkdown =>
    exact hp _ ((shrinks_staticValidSetBy env _ false tbl).trans (shrinks_delBy _ _))
  | delete | l2delete => exact hp _ ((shrinks_delStaticBy _ tbl).trans (shrinks_delBy _ _))
  | linkup | forwarding => exact hp _ (shrinks_staticValidSetBy env _ true tbl)
  | l3delete => exact hl3 _ fun _ => (shrinks_delStaticBy _ tbl).trans (shrinks_delBy _ _)
  | l3linkdown =>
    exact hl3 _ fun _ => (shrinks_staticValidSetBy env _ false tbl).trans (shrinks_delBy _ _)
  | l3linkup => exact hl3 _ fun _ => shrinks_staticValidSetBy env _ true tbl

theorem shrinks_relateLeave (env : ArpEnv) (tbl : ArpTable p) (father_index son_index : UInt32) :
    tbl.Shrinks (npdArpsnpRelateLeave env tbl father_index son_index) := by
  unfold npdArpsnpRelateLeave
  split_ifs
  · exact (shrinks_delStaticBy _ tbl).trans (shrinks_delBy _ _)
  · exact refl tbl

end

theorem OneOwner.step {s : ArpState p} (h : OneOwner s.tbl) (e : ArpEvent) : OneOwner (s.step e).tbl := by
  cases e with
  | rxPacket env r => exact npdArpPacketRxProcess_rule h h.learning r
  | dropCheck env dbItem netif_index dip =>
    exact snoopDropCheck_rule h h.learning dbItem netif_index dip
  | txHook env opCode l3intf dip => exact packetTxHookArp_rule h h.learning _ opCode l3intf dip
  | staticArp r => exact h.createStatic r
  | noStaticArp selection => exact h.shrinks (shrinks_processSelection shrinks_delStatic selection s.tbl)
  | delStaticArp ipAddr mac eth_g_index =>
    exact h.shrinks (shrinks_delStaticByMacL3index s.tbl ipAddr mac eth_g_index)
  | delBy filter => exact h.shrinks (shrinks_delBy filter s.tbl)
  | delStaticBy filter => exact h.shrinks (shrinks_delStaticBy filter s.tbl)
  | clearArp selection => exact h.shrinks (shrinks_processSelection shrinks_del selection s.tbl)
  | dyntostatic selection =>
    exact h.shrinks (shrinks_processSelection (shrinks_dyntostatic _) selection s.tbl)
  | staticValid env filter flag => exact h.shrinks (shrinks_staticValidSetBy env filter flag s.tbl)
  | notify env netif_index evt => exact h.shrinks (shrinks_notifyEvent env s.tbl netif_index evt)
  | relateLeave env father_index son_index =>
    exact h.shrinks (shrinks_relateLeave env s.tbl father_index son_index)
  | setAgetime timeout flag => exact h
  | setDrop arp_drop_enable => exact h
  | sync isMasterActive routes => exact h.shrinks (s.ages_sync routes isMasterActive).shrinks

theorem OneOwner.run {s : ArpState p} (h : OneOwner s.tbl) (events : List ArpEvent) :
    OneOwner (s.run events).tbl := by
  induction events generalizing s with
  | nil => exact h
  | cons e events ih => exact ih (h.step e)

theorem oneOwner_init (p : ArpProduct) : OneOwner (ArpState.init p).tbl := nodup_nil

/-- In no state that the system reaches are there two entries with the same address. -/
theorem oneOwner_run (p : ArpProduct) (events : List ArpEvent) :
    OneOwner ((ArpState.init p).run events).tbl :=
  (oneOwner_init p).run events

end Chanos.Arp

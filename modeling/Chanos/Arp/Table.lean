import Chanos.Dhcp.Binding
import Chanos.Lib.OrderedTable

/-!
# The ARP table

The table of `npd_arpsnooping.c`: which host has an address, by its MAC address and port. A dynamic
entry may be a drop entry, which stands for an address that nobody has answered for.
-/

namespace Chanos.Arp

open Lib Dhcp

structure ArpKey where
  ifIndex : UInt32
  mac : Bytes 6
  ipAddr : UInt32
  deriving DecidableEq

structure ArpItem where
  ifIndex : UInt32
  l3Index : UInt32
  mac : Bytes 6
  ipAddr : UInt32
  isTagged : UInt8
  vid : UInt16
  vidx : UInt16
  isStatic : UInt8
  isValid : UInt8
  flag : UInt32
  time : UInt32
  deriving DecidableEq

open ArpItem

variable (item : ArpItem)

def ArpItem.key : ArpKey := ⟨item.ifIndex, item.mac, item.ipAddr⟩

def ArpItem.zero : ArpItem := ⟨0, 0, Bytes.zero 6, 0, 0, 0, 0, 0, 0, 0, 0⟩

def arpsnpFlagHit : UInt32 := 0x1

def arpsnpFlagDrop : UInt32 := 0x2

def arpsnpFlagAll : UInt32 := 0xFF

abbrev ArpItem.Hit : Prop := item.flag &&& arpsnpFlagHit ≠ 0

abbrev ArpItem.Drop : Prop := item.flag &&& arpsnpFlagDrop ≠ 0

def ArpItem.clearHit : ArpItem := { item with flag := item.flag &&& ~~~arpsnpFlagHit }

theorem ArpItem.clearHit_flag_and (mask : UInt32) :
    item.clearHit.flag &&& mask = item.flag &&& (~~~arpsnpFlagHit &&& mask) :=
  UInt32.and_assoc _ _ _

theorem ArpItem.not_hit_clearHit : ¬ item.clearHit.Hit := by
  have h : ~~~arpsnpFlagHit &&& arpsnpFlagHit = 0 := by decide
  rw [Hit, clearHit_flag_and, h, UInt32.and_zero]
  exact not_not_intro rfl

theorem ArpItem.drop_clearHit_iff : item.clearHit.Drop ↔ item.Drop := by
  have h : ~~~arpsnpFlagHit &&& arpsnpFlagDrop = arpsnpFlagDrop := by decide
  rw [Drop, clearHit_flag_and, h, Drop]

def npdArpSnoopingCompare (itemA itemB : ArpItem) : Bool :=
  if itemA.ifIndex ≠ itemB.ifIndex then false
  else if itemA.mac ≠ itemB.mac then false
  else itemA.ipAddr = itemB.ipAddr

theorem compare_iff {itemA itemB : ArpItem} :
    npdArpSnoopingCompare itemA itemB = true ↔ itemA.key = itemB.key := by
  unfold npdArpSnoopingCompare key
  rw [ArpKey.mk.injEq]
  split_ifs with hp hma
  · simp [hp]
  · simp [hma]
  · rw [not_not] at hp hma
    rw [decide_eq_true_eq]
    exact ⟨fun h => ⟨hp, hma, h⟩, fun h => h.2.2⟩

def jhashMix (a b c : UInt32) : UInt32 × UInt32 × UInt32 :=
  let a := (a - b - c) ^^^ (c >>> 13)
  let b := (b - c - a) ^^^ (a <<< 8)
  let c := (c - a - b) ^^^ (b >>> 13)
  let a := (a - b - c) ^^^ (c >>> 12)
  let b := (b - c - a) ^^^ (a <<< 16)
  let c := (c - a - b) ^^^ (b >>> 5)
  let a := (a - b - c) ^^^ (c >>> 3)
  let b := (b - c - a) ^^^ (a <<< 10)
  let c := (c - a - b) ^^^ (b >>> 15)
  (a, b, c)

def jhashGolden : UInt32 := 0x9e3779b9

def jhash3words (a b c initval : UInt32) : UInt32 :=
  (jhashMix (a + jhashGolden) (b + jhashGolden) (c + initval)).2.2

def jhash1word (a initval : UInt32) : UInt32 := jhash3words a 0 0 initval

structure ArpProduct where
  table_size : ℕ
  have_route : Bool
  endian : Endian
  long64 : Bool

def npdArpSnoopingKeyGenerate (table_size : ℕ) (key : ArpKey) : ℕ :=
  (jhash1word key.ipAddr 0x35798642).toNat % table_size

abbrev ArpTable (p : ArpProduct) : Type :=
  OrderedTable key (npdArpSnoopingKeyGenerate p.table_size) p.table_size

inductive ArpReturnCode
  | success
  | error
  | notexists
  | notconsistent
  | staticExist
  | stasticNotexist
  | portNotmatch
  | staticArpFull
  | checkIpError
  | conflictedIp
  deriving DecidableEq

variable {p : ArpProduct} (tbl : ArpTable p)

def npdArpSnoopingFindItemByip (ipAddr : UInt32) : Option ArpItem :=
  tbl.search (npdArpSnoopingKeyGenerate p.table_size ⟨0, Bytes.zero 6, ipAddr⟩) fun item =>
    item.ipAddr = ipAddr

def npdArpSnoopingCountAll : ℕ := tbl.items.length

theorem mem_of_findItemByip {tbl : ArpTable p} {ipAddr : UInt32} {item : ArpItem}
    (h : npdArpSnoopingFindItemByip tbl ipAddr = some item) :
    item ∈ tbl.items ∧ item.ipAddr = ipAddr := by
  obtain ⟨hme, hip⟩ := OrderedTable.mem_of_search h
  exact ⟨hme, of_decide_eq_true hip⟩

theorem findItemByip_eq_none_iff {tbl : ArpTable p} {ipAddr : UInt32} :
    npdArpSnoopingFindItemByip tbl ipAddr = none ↔ ∀ item ∈ tbl.items, item.ipAddr ≠ ipAddr := by
  unfold npdArpSnoopingFindItemByip
  rw [OrderedTable.search_eq_none_iff]
  refine forall₂_congr fun item _ => ?_
  rw [ne_eq, decide_eq_true_eq]
  constructor
  · intro h hip
    refine h ?_ hip
    rw [← hip]
    rfl
  · exact fun h _ => h

def npdArpSnoopingDelAll (item : ArpItem) : ArpTable p × ArpReturnCode :=
  (tbl.erase item.key, .success)

def npdArpSnoopingDel (item : ArpItem) : ArpTable p × ArpReturnCode :=
  if item.isStatic = 1 then (tbl, .notexists) else npdArpSnoopingDelAll tbl item

def npdArpSnoopingDelStatic (item : ArpItem) : ArpTable p × ArpReturnCode :=
  if item.isStatic ≠ 1 then (tbl, .stasticNotexist) else npdArpSnoopingDelAll tbl item

inductive ArpFilter
  | all
  | byMac (mac : Bytes 6)
  | byIfindex (ifIndex : UInt32)
  | byIfindexVid (ifIndex : UInt32) (vid : UInt16)
  | byL3index (l3Index : UInt32)
  | byNetwork (ip mask : UInt32)
  deriving DecidableEq

def ArpFilter.accepts : ArpFilter → ArpItem → Bool
  | .all, _ => true
  | .byMac mac, item => item.mac = mac
  | .byIfindex ifIndex, item => item.ifIndex = ifIndex
  | .byIfindexVid ifIndex vid, item => item.ifIndex = ifIndex ∧ item.vid = vid
  | .byL3index l3Index, item => item.l3Index = l3Index
  | .byNetwork ip mask, item => item.ipAddr &&& mask = ip &&& mask

def npdArpSnoopingDelBy (filter : ArpFilter) (tbl : ArpTable p) : ArpTable p :=
  tbl.traversal filter.accepts fun tbl item => (npdArpSnoopingDel tbl item).1

def npdArpSnoopingDelStaticBy (filter : ArpFilter) (tbl : ArpTable p) : ArpTable p :=
  tbl.traversal filter.accepts fun tbl item => (npdArpSnoopingDelStatic tbl item).1

inductive ArpSelection
  | byIp (ipAddr : UInt32)
  | byFilter (filter : ArpFilter)
  deriving DecidableEq

variable (selection : ArpSelection)

def processSelection (processor : ArpTable p → ArpItem → ArpTable p)
    (tbl : ArpTable p) : ArpTable p :=
  match selection with
  | .byIp ipAddr => (npdArpSnoopingFindItemByip tbl ipAddr).elim tbl (processor tbl)
  | .byFilter filter => tbl.traversal filter.accepts processor

def npdDbusClearArp (tbl : ArpTable p) : ArpTable p :=
  processSelection selection (fun tbl item => (npdArpSnoopingDel tbl item).1) tbl

def npdDbusNoIpStaticArp (tbl : ArpTable p) : ArpTable p :=
  processSelection selection (fun tbl item => (npdArpSnoopingDelStatic tbl item).1) tbl

end Chanos.Arp

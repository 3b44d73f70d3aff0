import Chanos.Fdb.Learning

/-!
# The hardware side of the forwarding database

The handlers of the table program the hardware. An insertion and a deletion look at the attributes of
an entry in a fixed order, and an update at the differences of two entries, so an update does not
always leave what a deletion and an insertion leave. When it does can be told from the attributes of
the two entries (`UpdateFits`, `update_recreates_iff`).
-/

namespace Chanos.Fdb

open Lib Function

/-- What the hardware has for a VLAN and a MAC address; the mirror profile and the application flag
are `0` where there is none. -/
@[ext]
structure HwEntry where
  port : Option (UInt32 × Bool) := none
  srcDrop : Bool := false
  dstDrop : Bool := false
  mirror : UInt8 := 0
  app : UInt32 := 0
  deriving DecidableEq

abbrev Hardware := UInt16 × Bytes 6 → HwEntry

section

variable (e : HwEntry)

@[grind =]
def namMirrorFdbEntrySet (global_index : UInt32) (flag : UInt8) : HwEntry :=
  if flag = 0 then { e with port := none, mirror := 0 }
  else { e with port := some (global_index, true), mirror := flag }

@[grind =]
def namFdbEntryMacVlanDrop (flag : UInt32) : HwEntry :=
  if flag = 0 then { e with srcDrop := true } else { e with dstDrop := true }

@[grind =]
def namFdbEntryMacVlanNoDrop (flag : UInt32) : HwEntry :=
  if flag = 0 then { e with srcDrop := false } else { e with dstDrop := false }

@[grind =]
def namFdbAppEntryAdd (eth_g_index flag : UInt32) : HwEntry :=
  { e with port := some (eth_g_index, true), app := flag }

@[grind =]
def namFdbAppEntryDel : HwEntry := { e with port := none, app := 0 }

@[grind =]
def fdbAdd (driver : UInt32 → Bool) (ifIndex : UInt32) : HwEntry :=
  if driver ifIndex then { e with port := some (ifIndex, true) } else e

@[grind =]
def namFdbEntryMacVlanPortSet (globle_index : UInt32) : HwEntry :=
  { e with port := some (globle_index, false) }

@[grind =]
def namFdbEntryPortDelete : HwEntry := { e with port := none }

end

/-! ## The handlers, on the hardware entry of their item -/

section

variable (driver : UInt32 → Bool) (item : FdbEntryItem)

def FdbEntryItem.blocksSmac : Bool := item.blockMode &&& blacklistSmacMode ≠ 0

def FdbEntryItem.blocksDmac : Bool := item.blockMode &&& blacklistDmacMode ≠ 0

def npdFdbDbtblHandleUpdate (updateItem origItem : FdbEntryItem) (e : HwEntry) : HwEntry :=
  if origItem.isMirror = 0 ∧ updateItem.isMirror ≠ 0 then namMirrorFdbEntrySet e updateItem.ifIndex 1
  else if origItem.blockMode ≠ updateItem.blockMode then
    let e :=
      if updateItem.blocksSmac then if origItem.blocksSmac then e else namFdbEntryMacVlanDrop e 0
      else if origItem.blocksSmac then namFdbEntryMacVlanNoDrop e 0 else e
    if updateItem.blocksDmac then if origItem.blocksDmac then e else namFdbEntryMacVlanDrop e 1
    else if origItem.blocksDmac then namFdbEntryMacVlanNoDrop e 1 else e
  else if origItem.flagApp = 0 ∧ updateItem.flagApp ≠ 0 then
    namFdbAppEntryAdd e updateItem.ifIndex updateItem.flagApp
  else if updateItem.isStatic ≠ origItem.isStatic then
    if updateItem.isStatic ≠ 0 then fdbAdd e driver updateItem.ifIndex else e
  else namFdbEntryMacVlanPortSet e updateItem.ifIndex

def npdFdbDbtblHandleInsert (opItem : FdbEntryItem) (e : HwEntry) : HwEntry :=
  if opItem.isMirror = 1 then namMirrorFdbEntrySet e opItem.ifIndex opItem.mirrorProfile
  else if opItem.isBlock ≠ 0 then
    let e := if opItem.blocksSmac then namFdbEntryMacVlanDrop e 0 else e
    if opItem.blocksDmac then namFdbEntryMacVlanDrop e 1 else e
  else if opItem.flagApp ≠ 0 then namFdbAppEntryAdd e opItem.ifIndex opItem.flagApp
  else if opItem.isStatic ≠ 0 then fdbAdd e driver opItem.ifIndex
  else namFdbEntryMacVlanPortSet e opItem.ifIndex

def npdFdbDbtblHandleDelete (opItem : FdbEntryItem) (e : HwEntry) : HwEntry :=
  if opItem.isMirror = 1 then namMirrorFdbEntrySet e opItem.ifIndex 0
  else if opItem.isBlock ≠ 0 then
    let e := if opItem.blocksSmac then namFdbEntryMacVlanNoDrop e 0 else e
    if opItem.blocksDmac then namFdbEntryMacVlanNoDrop e 1 else e
  else if opItem.flagApp ≠ 0 then namFdbAppEntryDel e
  else namFdbEntryPortDelete e

/-- A handler acts on the hardware entry of the item's VLAN and MAC address. -/
def FdbEntryItem.onHardware (handler : HwEntry → HwEntry) (hw : Hardware) :
    Hardware :=
  update hw item.key (handler (hw item.key))

/-- What the insertion of an entry programs. -/
def FdbEntryItem.programmed : HwEntry := npdFdbDbtblHandleInsert driver item {}

end

/-! ## When an update is enough -/

/-- What an entry is for the hardware, by the attributes in the order in which they are looked at. -/
inductive EntryKind
  | mirror
  | block
  | app
  | fixed
  | learned
  deriving DecidableEq

section

variable (driver : UInt32 → Bool) (item old new : FdbEntryItem)

@[grind =]
def FdbEntryItem.kind : EntryKind :=
  if item.isMirror = 1 then .mirror
  else if item.isBlock ≠ 0 then .block
  else if item.flagApp ≠ 0 then .app
  else if item.isStatic ≠ 0 then .fixed
  else .learned

/-- The entry is forwarded to its port. -/
@[grind =]
def FdbEntryItem.Forwards : Prop :=
  match item.kind with
  | .mirror => item.mirrorProfile ≠ 0
  | .block => False
  | .fixed => driver item.ifIndex = true
  | .app | .learned => True

@[grind =]
def FdbEntryItem.Undropped : Prop :=
  item.kind = .block → item.blocksSmac = false ∧ item.blocksDmac = false

@[grind =]
def FdbEntryItem.Unmirrored : Prop := item.kind = .mirror → item.mirrorProfile = 0

/-- The two entries are forwarded alike. -/
@[grind =]
def SameForwarding : Prop :=
  (old.Forwards driver ↔ new.Forwards driver) ∧
    (new.Forwards driver → old.kind = new.kind ∧ old.ifIndex = new.ifIndex ∧
      (new.kind = .mirror → old.mirrorProfile = new.mirrorProfile) ∧
      (new.kind = .app → old.flagApp = new.flagApp))

/-- A bit of the block mode that the new entry has comes with a drop in both entries or in none,
unless the bit is new, which programs the drop. -/
@[grind =]
def SameDrops : Prop :=
  (new.blocksSmac = true →
      (new.kind = .block ↔ (old.blocksSmac = true → old.kind = .block))) ∧
    (new.blocksDmac = true →
      (new.kind = .block ↔ (old.blocksDmac = true → old.kind = .block)))

/-- When an update leaves what a new entry is programmed as, branch by branch of the update. -/
def UpdateFits : Prop :=
  if old.isMirror = 0 ∧ new.isMirror ≠ 0 then
    -- The profile is not taken from the entry.
    new.isMirror = 1 ∧ new.mirrorProfile = 1 ∧ old.Undropped ∧ old.kind ≠ .app
  else if old.blockMode ≠ new.blockMode then SameForwarding driver old new ∧ SameDrops old new
  else if old.flagApp = 0 ∧ new.flagApp ≠ 0 then
    new.kind = .app ∧ old.Undropped ∧ old.Unmirrored
  else if new.isStatic ≠ old.isStatic then
    if new.isStatic ≠ 0 ∧ driver new.ifIndex then
      -- The port is programmed; a profile or a flag has to be there already.
      new.Forwards driver ∧ old.Undropped ∧
        if new.kind = .fixed then old.kind ≠ .app ∧ old.Unmirrored
        else old.kind = new.kind ∧ (new.kind = .mirror → old.mirrorProfile = new.mirrorProfile) ∧
          (new.kind = .app → old.flagApp = new.flagApp)
    else SameForwarding driver old new ∧ SameDrops old new
  else
    -- Every other change programs the port as that of a dynamic entry.
    new.kind = .learned ∧ old.Undropped ∧ old.Unmirrored ∧ old.kind ≠ .app

end

open FdbEntryItem

section

variable {driver : UInt32 → Bool} {old new : FdbEntryItem}

theorem delete_programmed : npdFdbDbtblHandleDelete old (old.programmed driver) = {} := by
  unfold programmed npdFdbDbtblHandleInsert npdFdbDbtblHandleDelete
  grind

theorem programmed_eq (driver : UInt32 → Bool) (item : FdbEntryItem) :
    item.programmed driver =
      match item.kind with
      | .mirror => namMirrorFdbEntrySet {} item.ifIndex item.mirrorProfile
      | .block => { srcDrop := item.blocksSmac, dstDrop := item.blocksDmac }
      | .app => namFdbAppEntryAdd {} item.ifIndex item.flagApp
      | .fixed => fdbAdd {} driver item.ifIndex
      | .learned => namFdbEntryMacVlanPortSet {} item.ifIndex := by
  unfold programmed npdFdbDbtblHandleInsert
  grind

theorem flagApp_ne_zero {item : FdbEntryItem} (h : item.kind = .app) : item.flagApp ≠ 0 := by
  grind

theorem programmed_drops (driver : UInt32 → Bool) (item : FdbEntryItem) :
    (item.programmed driver).srcDrop = (decide (item.kind = .block) && item.blocksSmac) ∧
      (item.programmed driver).dstDrop = (decide (item.kind = .block) && item.blocksDmac) := by
  rw [programmed_eq]
  cases item.kind <;> grind

theorem sameForwarding_iff :
    SameForwarding driver old new ↔
      (old.programmed driver).port = (new.programmed driver).port ∧
        (old.programmed driver).mirror = (new.programmed driver).mirror ∧
        (old.programmed driver).app = (new.programmed driver).app := by
  have happ := @flagApp_ne_zero old
  have happ' := @flagApp_ne_zero new
  rw [programmed_eq, programmed_eq]
  unfold SameForwarding Forwards
  generalize old.kind = ko at *
  generalize new.kind = kn at *
  cases ko <;> cases kn <;> grind

/-- The branch for a changed block mode writes the drop bits and nothing else. -/
def changedDrops (old new : FdbEntryItem) (e : HwEntry) : HwEntry :=
  { e with
    srcDrop := new.blocksSmac && (e.srcDrop || !old.blocksSmac)
    dstDrop := new.blocksDmac && (e.dstDrop || !old.blocksDmac) }

theorem changedDrops_eq_iff :
    changedDrops old new (old.programmed driver) = new.programmed driver ↔
      SameForwarding driver old new ∧ SameDrops old new := by
  rw [sameForwarding_iff, HwEntry.ext_iff, SameDrops]
  simp only [changedDrops, programmed_drops]
  grind

theorem update_programmed_iff :
    npdFdbDbtblHandleUpdate driver new old (old.programmed driver) = new.programmed driver ↔
      UpdateFits driver old new := by
  have hdrops := programmed_drops driver old
  unfold UpdateFits npdFdbDbtblHandleUpdate
  split
  · rw [programmed_eq, programmed_eq]
    cases ho : old.kind <;> cases hn : new.kind <;> grind [HwEntry.ext_iff]
  split
  · rw [← changedDrops_eq_iff]
    refine Eq.congr_left (HwEntry.ext ?_ ?_ ?_ ?_ ?_)
    all_goals grind [changedDrops]
  split
  · rw [programmed_eq, programmed_eq]
    cases ho : old.kind <;> cases hn : new.kind <;> grind [HwEntry.ext_iff]
  split
  · have hmode : new.blocksSmac = old.blocksSmac ∧ new.blocksDmac = old.blocksDmac := by
      simp_all [blocksSmac, blocksDmac]
    by_cases hset : new.isStatic ≠ 0 ∧ driver new.ifIndex = true
    · have hkind : new.kind ≠ .learned := by grind
      have happ := @flagApp_ne_zero old
      have happ' := @flagApp_ne_zero new
      rw [if_pos hset.1, if_pos hset, fdbAdd, if_pos hset.2, programmed_eq, programmed_eq]
      unfold Forwards Undropped Unmirrored
      generalize old.kind = ko at *
      generalize new.kind = kn at *
      cases ko <;> cases kn <;> grind [HwEntry.ext_iff]
    · have hkept : changedDrops old new (old.programmed driver) = old.programmed driver := by
        ext <;> grind [changedDrops]
      rw [if_neg hset, ← changedDrops_eq_iff, hkept]
      grind
  · rw [programmed_eq, programmed_eq]
    cases ho : old.kind <;> cases hn : new.kind <;> grind [HwEntry.ext_iff]

end

/-- **When an update programs what a new entry would be programmed as.** -/
theorem update_recreates_iff (driver : UInt32 → Bool) (hw : Hardware) (old new : FdbEntryItem)
    (hkey : new.key = old.key) (hfree : hw old.key = {}) :
    let inserted := old.onHardware (npdFdbDbtblHandleInsert driver old) hw
    new.onHardware (npdFdbDbtblHandleUpdate driver new old) inserted =
        new.onHardware (npdFdbDbtblHandleInsert driver new)
          (old.onHardware (npdFdbDbtblHandleDelete old) inserted) ↔
      UpdateFits driver old new := by
  have hdelete := @delete_programmed driver old
  rw [← update_programmed_iff]
  simp only [onHardware, hkey, hfree, update_self, update_idem]
  change update hw old.key _ =
    update hw old.key (npdFdbDbtblHandleInsert driver new
      (npdFdbDbtblHandleDelete old (old.programmed driver))) ↔ _
  rw [hdelete]
  exact (update_injective hw old.key).eq_iff

def dynamicItem : FdbEntryItem := { vlanid := 1, mac := Bytes.zero 6, ifIndex := 5 }

/-- A dynamic entry that moves to another port. -/
theorem update_recreates_moved :
    let inserted :=
      dynamicItem.onHardware (npdFdbDbtblHandleInsert (fun _ => true) dynamicItem) fun _ => {}
    let moved := { dynamicItem with ifIndex := 7 }
    moved.onHardware (npdFdbDbtblHandleUpdate (fun _ => true) moved dynamicItem) inserted =
      moved.onHardware (npdFdbDbtblHandleInsert (fun _ => true) moved)
        (dynamicItem.onHardware (npdFdbDbtblHandleDelete dynamicItem) inserted) :=
  (update_recreates_iff (fun _ => true) (fun _ => {}) dynamicItem { dynamicItem with ifIndex := 7 } rfl
    rfl).mpr (by simp [UpdateFits, dynamicItem, kind, Undropped, Unmirrored])

/-- An address that is taken from the blacklist is not forwarded after the update, and an entry that
becomes a mirror entry gets the profile 1. -/
theorem update_differs :
    let black := { dynamicItem with isBlock := 1, blockMode := 3 }
    let mirrored := { dynamicItem with isMirror := 1, mirrorProfile := 2 }
    let update := npdFdbDbtblHandleUpdate (fun _ => true)
    let insert := npdFdbDbtblHandleInsert (fun _ => true)
    update dynamicItem black (insert black {}) ≠
        insert dynamicItem (npdFdbDbtblHandleDelete black (insert black {})) ∧
      update mirrored dynamicItem (insert dynamicItem {}) ≠
        insert mirrored (npdFdbDbtblHandleDelete dynamicItem (insert dynamicItem {})) := by
  decide

end Chanos.Fdb

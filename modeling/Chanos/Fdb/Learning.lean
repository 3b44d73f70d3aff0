import Chanos.Lib.Bytes
import Chanos.Lib.OrderedTable

/-!
# Learning MAC addresses

The forwarding database of `npd_fdb.c` has an entry for a VLAN and a MAC address. Entries are learned
by `npd_fdb_learning`, and dynamic ones are deleted in traversals whose callback is
`npd_fdb_entry_del`. Neither touches an entry that is static, on the blacklist or a mirror entry
(`protected_kept`).
-/

namespace Chanos.Fdb

open Lib OrderedTable Bytes

/-- `struct fdb_entry_item_s`. -/
structure FdbEntryItem where
  vlanid : UInt16
  mac : Bytes 6
  blockMode : UInt8 := 0
  isStatic : UInt8 := 0
  isBlock : UInt8 := 0
  isAuthen : UInt8 := 0
  isMirror : UInt8 := 0
  mirrorProfile : UInt8 := 0
  ifIndex : UInt32 := 0
  time : UInt32 := 0
  flagApp : UInt32 := 0
  deriving DecidableEq

open FdbEntryItem

/-- What `npd_fdb_compare` compares. -/
def FdbEntryItem.key (item : FdbEntryItem) : UInt16 × Bytes 6 := (item.vlanid, item.mac)

def npdFdbKeyMacGenerate (size : ℕ) (key : UInt16 × Bytes 6) : ℕ :=
  ((key.2.get ⟨4, by decide⟩).toNat <<< 8 ||| (key.2.get ⟨5, by decide⟩).toNat) % size

/-- The table of `npd_fdb_table_init`, with its size `NPD_FDB_TABLE_SIZE`. -/
abbrev FdbTable (size : ℕ) := OrderedTable key (npdFdbKeyMacGenerate size) size

def blacklistSmacMode : UInt8 := 0x1

def blacklistDmacMode : UInt8 := 0x2

inductive FdbReturnCode
  | success | nodeExist | hashOpFail | notFound
  deriving DecidableEq

structure SwitchPort where
  fdb_learning_mode : ℤ
  fdb_limit : ℤ

/-- What `npd_fdb_learning` finds around an entry: whether `malloc` succeeds, the switch port and
the limit of the VLAN, whether addresses of the port are authenticated, the virtual MAC address of
the VLAN, and the time. -/
structure LearnEnv where
  malloc : Bool
  switch_port : Option SwitchPort
  vlan_limit : Option ℤ
  authMode_MAB : Bool
  vmac : Option (Bytes 6)
  product_mac_address : Bytes 6
  now : UInt32

section

variable {size : ℕ}

def FdbEntryItem.compareByVlan (itemA itemB : FdbEntryItem) : Bool := itemA.vlanid = itemB.vlanid

def FdbEntryItem.compareByPort (itemA itemB : FdbEntryItem) : Bool := itemA.ifIndex = itemB.ifIndex

def FdbEntryItem.filterByVlanPort (itemA itemB : FdbEntryItem) : Bool :=
  itemA.ifIndex = itemB.ifIndex ∧ itemA.vlanid = itemB.vlanid ∧ itemA.flagApp = 0 ∧ itemB.flagApp = 0

def FdbTable.find (tbl : FdbTable size) (item : FdbEntryItem) : Option FdbEntryItem :=
  tbl.items.find? fun x => x.key = item.key

def FdbTable.count (tbl : FdbTable size) (p : FdbEntryItem → Bool) : ℕ := (tbl.items.filter p).length

def overLimit (limit : ℤ) (count : ℕ) : Bool := 0 ≤ limit ∧ limit ≤ count

def learnedItem (env : LearnEnv) (entry : FdbEntryItem) : FdbEntryItem :=
  let sticky := env.switch_port.any fun p => p.fdb_learning_mode = 4
  let entry := if sticky then { entry with isStatic := 1 } else entry
  if env.authMode_MAB then { entry with isBlock := 1, blockMode := blacklistSmacMode } else entry

def npdFdbLearning (env : LearnEnv) (entry : FdbEntryItem) (isAdd : Bool) (tbl : FdbTable size) :
    FdbTable size × FdbReturnCode :=
  if ¬env.malloc then (tbl, .hashOpFail)
  else if env.switch_port.any (fun p => p.fdb_learning_mode = 0) then (tbl, .nodeExist)
  else
    let entry := learnedItem env entry
    if (tbl.find entry).any (fun old_entry =>
        old_entry.isBlock ≠ 0 ∨ old_entry.isStatic ≠ 0 ∨ old_entry.isMirror ≠ 0 ∨
          old_entry.isAuthen ≠ 0) then (tbl, .nodeExist)
    else if entry.mac = env.product_mac_address then (tbl, .success)
    else if ¬isAdd then
      (tbl.erase entry.key, if (tbl.find entry).isSome then .success else .notFound)
    else
      match env.vlan_limit with
      | none => (tbl, .hashOpFail)
      | some limit =>
        if overLimit limit (tbl.count entry.compareByVlan) then (tbl, .hashOpFail)
        else if env.switch_port.any (fun p =>
            overLimit p.fdb_limit (tbl.count entry.compareByPort)) then (tbl, .hashOpFail)
        else
          let entry := { entry with time := env.now }
          if env.vmac = some entry.mac then (tbl, .success)
          else
            let (tbl, done) := tbl.insert entry
            (tbl, if done then .success else .hashOpFail)

def npdFdbEntryDel (product_mac_address : Bytes 6) (tbl : FdbTable size) (item : FdbEntryItem) :
    FdbTable size :=
  if item.mac = product_mac_address then tbl
  else if item.isMirror ≠ 0 ∨ item.isBlock ≠ 0 ∨ item.isStatic ≠ 0 then tbl
  else tbl.erase item.key

/-- A call of `npd_fdb_learning`, `npd_fdb_dynamic_entry_del_by_vlan`,
`npd_fdb_dynamic_entry_del_by_port` or `npd_fdb_dynamic_entry_del_by_vlan_port`. -/
inductive FdbCall
  | learning (env : LearnEnv) (entry : FdbEntryItem) (isAdd : Bool)
  | delByVlan (product_mac_address : Bytes 6) (vid : UInt16)
  | delByPort (product_mac_address : Bytes 6) (netif_index : UInt32)
  | delByVlanPort (product_mac_address : Bytes 6) (vlanid : UInt16) (netif_index : UInt32)

def FdbCall.run (tbl : FdbTable size) : FdbCall → FdbTable size
  | learning env entry isAdd => (npdFdbLearning env entry isAdd tbl).1
  | delByVlan mac vid =>
    tbl.traversal (compareByVlan { vlanid := vid, mac := zero 6 })
      (npdFdbEntryDel mac)
  | delByPort mac netif_index =>
    tbl.traversal
      (compareByPort { vlanid := 0, mac := zero 6, ifIndex := netif_index })
      (npdFdbEntryDel mac)
  | delByVlanPort mac vlanid netif_index =>
    tbl.traversal
      (filterByVlanPort { vlanid, mac := zero 6, ifIndex := netif_index })
      (npdFdbEntryDel mac)

end

/-! ## Protected entries -/

section

variable {size : ℕ} {tbl tbl' : FdbTable size} {item x : FdbEntryItem} {env : LearnEnv} {isAdd : Bool}

def FdbEntryItem.Protected (item : FdbEntryItem) : Prop :=
  item.isStatic ≠ 0 ∨ item.isBlock ≠ 0 ∨ item.isMirror ≠ 0

instance (item : FdbEntryItem) : Decidable item.Protected := inferInstanceAs (Decidable (_ ∨ _))

theorem find_of_mem (hx : x ∈ tbl.items) (hke : x.key = item.key) :
    tbl.find item = some x := by
  have hso : (tbl.find item).isSome := List.find?_isSome.mpr ⟨x, hx, decide_eq_true hke⟩
  obtain ⟨y, hy⟩ := Option.isSome_iff_exists.mp hso
  have hyk : y.key = item.key := by simpa using List.find?_some hy
  rw [hy, eq_of_key_eq (List.mem_of_find?_eq_some hy) hx (hyk.trans hke.symm)]

theorem learning_cases (env : LearnEnv) (entry : FdbEntryItem) (isAdd : Bool)
    (tbl : FdbTable size) :
    (npdFdbLearning env entry isAdd tbl).1 = tbl ∨
      (∀ x ∈ tbl.items, x.key = (learnedItem env entry).key → ¬x.Protected) ∧
        ((npdFdbLearning env entry isAdd tbl).1 = tbl.erase (learnedItem env entry).key ∨
          (npdFdbLearning env entry isAdd tbl).1 =
            (tbl.insert { learnedItem env entry with time := env.now }).1) := by
  have hfr : ¬(tbl.find (learnedItem env entry)).any (fun old => old.isBlock ≠ 0 ∨ old.isStatic ≠ 0 ∨
      old.isMirror ≠ 0 ∨ old.isAuthen ≠ 0) →
      ∀ x ∈ tbl.items, x.key = (learnedItem env entry).key → ¬x.Protected := by
    intro hf x hx hke hp
    refine hf ?_
    rw [find_of_mem hx hke, Option.any_some, decide_eq_true_eq]
    rcases hp with hp | hp | hp <;> simp [hp]
  unfold npdFdbLearning
  dsimp only
  split
  · exact .inl rfl
  split
  · exact .inl rfl
  split
  · exact .inl rfl
  rename_i hf
  split
  · exact .inl rfl
  split
  · exact .inr ⟨hfr hf, .inl rfl⟩
  split
  · exact .inl rfl
  split_ifs
  any_goals exact .inl rfl
  all_goals exact .inr ⟨hfr hf, .inr rfl⟩

theorem mem_npdFdbLearning (entry : FdbEntryItem) (hx : x ∈ tbl.items) (hp : x.Protected) :
    x ∈ (npdFdbLearning env entry isAdd tbl).1.items := by
  rcases learning_cases env entry isAdd tbl with h | ⟨hfr, h | h⟩ <;> rw [h]
  · exact hx
  · exact mem_erase.mpr ⟨hx, fun hke => hfr x hx hke hp⟩
  · exact mem_insert_of_ne hx fun hke => hfr x hx hke hp

theorem mem_traversal (mac : Bytes 6) (filter : FdbEntryItem → Bool) (hx : x ∈ tbl.items)
    (hp : x.Protected) : x ∈ (tbl.traversal filter (npdFdbEntryDel mac)).items := by
  have hrun : ∀ (l : List FdbEntryItem) (tbl' : FdbTable size), l ⊆ tbl.items → x ∈ tbl'.items →
      x ∈ (l.foldl (npdFdbEntryDel mac) tbl').items := by
    intro l
    induction l with
    | nil => exact fun tbl' _ hme => hme
    | cons y l ih =>
      intro tbl' hl hme
      obtain ⟨hy, hl⟩ := List.cons_subset.mp hl
      refine ih _ hl ?_
      unfold npdFdbEntryDel
      split_ifs with _ hf
      · exact hme
      · exact hme
      · refine mem_erase.mpr ⟨hme, fun hke => hf ?_⟩
        rw [← eq_of_key_eq hx hy hke]
        rcases hp with h | h | h <;> simp [h]
  exact hrun _ tbl (List.filter_subset_self _) hx

theorem FdbCall.mem_run (call : FdbCall) (hx : x ∈ tbl.items) (hp : x.Protected) :
    x ∈ (call.run tbl).items := by
  cases call with
  | learning env entry isAdd => exact mem_npdFdbLearning entry hx hp
  | delByVlan mac vid | delByPort mac netif_index | delByVlanPort mac vlanid netif_index =>
    exact mem_traversal mac _ hx hp

end

/-- **Learning does not displace configured entries.** Whatever the table holds and whatever is
learned and deleted, a static, blacklist or mirror entry stays as it is, and what is learned on a
sticky port is such an entry. -/
theorem protected_kept {size : ℕ} (tbl : FdbTable size) (calls : List FdbCall) :
    (∀ item ∈ tbl.items, item.Protected → item ∈ (calls.foldl FdbCall.run tbl).items) ∧
      ∀ (env : LearnEnv) (entry : FdbEntryItem) (isAdd : Bool) (port : SwitchPort),
        env.switch_port = some port → port.fdb_learning_mode = 4 →
          ∀ item ∈ (npdFdbLearning env entry isAdd tbl).1.items,
            item ∉ tbl.items → item.Protected := by
  refine ⟨fun item hitem hp => ?_, fun env entry isAdd port hport hmode item hitem hnew => ?_⟩
  · induction calls generalizing tbl with
    | nil => exact hitem
    | cons call calls ih => exact ih (call.run tbl) (call.mem_run hitem hp)
  · rcases learning_cases env entry isAdd tbl with h | ⟨-, h | h⟩ <;> rw [h] at hitem
    · exact absurd hitem hnew
    · exact absurd (mem_erase.mp hitem).1 hnew
    · rcases mem_insert_fst hitem with rfl | hitem
      · -- The flag that marks a sticky entry is set before the others.
        left
        unfold learnedItem
        split_ifs <;> simp_all
      · exact absurd hitem hnew

/-- A static entry outlasts the learning of its address behind another port. -/
theorem protected_kept_static :
    ∃ (tbl : FdbTable 4) (item moved : FdbEntryItem) (env : LearnEnv),
      item ∈ tbl.items ∧ item.Protected ∧ moved.key = item.key ∧ moved.ifIndex ≠ item.ifIndex ∧
        item ∈ ([FdbCall.learning env moved true].foldl FdbCall.run tbl).items :=
  let item : FdbEntryItem := { vlanid := 1, mac := zero 6, isStatic := 1, ifIndex := 5 }
  let tbl : FdbTable 4 := (empty.insert item).1
  ⟨tbl, item, { item with isStatic := 0, ifIndex := 7 },
    ⟨true, none, some (-1), false, none, six 0 1 2 3 4 5, 0⟩, by decide, by decide, rfl, by decide,
    (protected_kept tbl _).1 item (by decide) (by decide)⟩

end Chanos.Fdb

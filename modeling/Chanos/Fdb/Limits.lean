import Chanos.Fdb.Learning

/-!
# Limits on the number of MAC addresses

`npd_fdb_learning` counts the entries of the VLAN and of the port before it inserts one, and gives
up when a limit is reached. No call gets past a limit. But the count of the VLAN includes an entry
that the call would replace, so a station cannot move within a VLAN that is full
(`learning_within_limits`).
-/

namespace Chanos.Fdb

open Lib List OrderedTable

/-- The limits of the VLANs and of the ports. -/
structure Limits where
  vlan : UInt16 → ℕ
  port : UInt32 → ℕ

/-- A call of `npd_fdb_learning`, with the learning mode of the port. -/
structure LearnCall where
  env : LearnEnv
  fdb_learning_mode : ℤ
  entry : FdbEntryItem
  isAdd : Bool

section

variable {size : ℕ} (limits : Limits) (tbl : FdbTable size) (call : LearnCall)

def LearnCall.limited : LearnEnv :=
  { call.env with
    vlan_limit := some (limits.vlan call.entry.vlanid)
    switch_port := some ⟨call.fdb_learning_mode, limits.port call.entry.ifIndex⟩ }

def LearnCall.run : FdbTable size :=
  (npdFdbLearning (call.limited limits) call.entry call.isAdd tbl).1

/-- The call ends otherwise when the VLAN has no limit. -/
def LearnCall.RefusedByVlan : Prop :=
  npdFdbLearning (call.limited limits) call.entry call.isAdd tbl ≠
    npdFdbLearning { call.limited limits with vlan_limit := some (-1) } call.entry call.isAdd tbl

def FdbTable.countVlan (vid : UInt16) : ℕ := tbl.count fun x => vid = x.vlanid

def FdbTable.countPort (netif_index : UInt32) : ℕ := tbl.count fun x => netif_index = x.ifIndex

/-- The table has an entry for the VLAN and the MAC address that was learned. -/
def FdbTable.Knows (item : FdbEntryItem) : Prop :=
  ∃ x ∈ tbl.items, x.key = item.key ∧ ¬x.Protected

/-- The call comes to look at the limits: it adds an address that is not one of the switch itself
and was not authenticated, on a port that learns. -/
def LearnCall.Checks : Prop :=
  call.env.malloc = true ∧ call.fdb_learning_mode ≠ 0 ∧
    (∀ x ∈ tbl.items, x.key = call.entry.key → x.isAuthen = 0) ∧
    call.entry.mac ≠ call.env.product_mac_address ∧ call.isAdd = true

end

section

variable {size : ℕ} {tbl : FdbTable size}

theorem count_erase_le (k : UInt16 × Bytes 6) (p : FdbEntryItem → Bool) :
    FdbTable.count (tbl.erase k) p ≤ tbl.count p :=
  (filter_sublist.filter p).length_le

theorem count_insert_le (a : FdbEntryItem) (p : FdbEntryItem → Bool) :
    FdbTable.count (tbl.insert a).1 p ≤ tbl.count p + if p a then 1 else 0 := by
  have hc : ∀ l : List FdbEntryItem,
      ((a :: l).filter p).length = (l.filter p).length + if p a then 1 else 0 := by
    intro l
    rw [filter_cons]
    split_ifs <;> rfl
  unfold FdbTable.count OrderedTable.insert
  by_cases hme : a.key ∈ tbl.items.map FdbEntryItem.key
  · -- the entry takes the place of the one that has its key
    obtain ⟨x, hx, hke⟩ := mem_map.mp hme
    obtain ⟨pre, post, hi⟩ := append_of_mem hx
    have hp : (pre ++ a :: post).Perm (a :: (pre ++ post)) := perm_middle
    have hsu : (pre ++ post).Sublist (pre ++ x :: post) := (sublist_cons_self x post).append_left pre
    rw [dif_pos hme, update_split hi hke.symm, hi, (hp.filter p).length_eq, hc]
    exact Nat.add_le_add_right (hsu.filter p).length_le _
  · rw [dif_neg hme]
    by_cases hr : tbl.items.length < size
    · rw [dif_pos hr]
      exact (((place_perm a tbl.items).filter p).length_eq.trans (hc _)).le
    · rw [dif_neg hr]
      exact Nat.le_add_right _ _

variable {limits : Limits} {call : LearnCall}

theorem learnedItem_fields (env : LearnEnv) (entry : FdbEntryItem) :
    (learnedItem env entry).vlanid = entry.vlanid ∧ (learnedItem env entry).mac = entry.mac ∧
      (learnedItem env entry).ifIndex = entry.ifIndex := by
  unfold learnedItem
  dsimp only
  split_ifs <;> exact ⟨rfl, rfl, rfl⟩

theorem lt_of_not_overLimit {limit count : ℕ} (h : ¬overLimit limit count = true) :
    count < limit := by
  have hlt : ¬((0 : ℤ) ≤ limit ∧ (limit : ℤ) ≤ count) := fun hle => h (decide_eq_true hle)
  omega

/-- What a call does to the table, and what it has found out before it inserts. -/
theorem LearnCall.run_cases (limits : Limits) (tbl : FdbTable size) (call : LearnCall) :
    let a := { learnedItem (call.limited limits) call.entry with time := call.env.now }
    call.run limits tbl = tbl ∨ call.run limits tbl = tbl.erase a.key ∨
      call.run limits tbl = (tbl.insert a).1 ∧
        tbl.countVlan a.vlanid < limits.vlan call.entry.vlanid ∧
        tbl.countPort a.ifIndex < limits.port call.entry.ifIndex := by
  intro a
  unfold run npdFdbLearning
  dsimp only
  split
  · exact .inl rfl
  split
  · exact .inl rfl
  split
  · exact .inl rfl
  split
  · exact .inl rfl
  split
  · exact .inr (.inl rfl)
  split
  · exact .inl rfl
  rename_i hli
  cases hli
  split
  · exact .inl rfl
  rename_i hv
  split
  · exact .inl rfl
  rename_i hp
  split
  · exact .inl rfl
  · exact .inr (.inr ⟨rfl, lt_of_not_overLimit hv, lt_of_not_overLimit hp⟩)

theorem LearnCall.count_run_le (limits : Limits) (call : LearnCall) (p : FdbEntryItem → Bool)
    {limit : ℕ}
    (h : let a := { learnedItem (call.limited limits) call.entry with time := call.env.now }
      tbl.countVlan a.vlanid < limits.vlan call.entry.vlanid →
        tbl.countPort a.ifIndex < limits.port call.entry.ifIndex → p a = true →
          tbl.count p < limit) :
    FdbTable.count (call.run limits tbl) p ≤ max (tbl.count p) limit := by
  rcases call.run_cases limits tbl with hrun | hrun | ⟨hrun, hv, hpt⟩ <;> rw [hrun]
  · exact le_max_left _ _
  · exact (count_erase_le _ p).trans (le_max_left _ _)
  · refine (count_insert_le _ p).trans ?_
    split_ifs with hp
    · exact (Nat.succ_le_of_lt (h hv hpt hp)).trans (le_max_right _ _)
    · exact le_max_left _ _

/-- What a call does for an address that is known, with the limit of the VLAN as a parameter. -/
theorem LearnCall.learning_known (limits : Limits) {x : FdbEntryItem} (hx : x ∈ tbl.items)
    (hke : x.key = call.entry.key) (hpr : ¬x.Protected) (limit : ℤ) :
    npdFdbLearning { call.limited limits with vlan_limit := some limit } call.entry call.isAdd tbl =
      if ¬call.env.malloc then (tbl, .hashOpFail)
      else if call.fdb_learning_mode = 0 then (tbl, .nodeExist)
      else if x.isAuthen ≠ 0 then (tbl, .nodeExist)
      else if call.entry.mac = call.env.product_mac_address then (tbl, .success)
      else if ¬call.isAdd then (tbl.erase call.entry.key, .success)
      else if overLimit limit (tbl.countVlan call.entry.vlanid) then (tbl, .hashOpFail)
      else if overLimit (limits.port call.entry.ifIndex) (tbl.countPort call.entry.ifIndex) then
        (tbl, .hashOpFail)
      else if call.env.vmac = some call.entry.mac then (tbl, .success)
      else ((tbl.insert { learnedItem (call.limited limits) call.entry with time := call.env.now }).1,
        .success) := by
  obtain ⟨hvlan, hmac, hport⟩ := learnedItem_fields (call.limited limits) call.entry
  have hit : learnedItem { call.limited limits with vlan_limit := some limit } call.entry =
      learnedItem (call.limited limits) call.entry := rfl
  generalize hitem : learnedItem (call.limited limits) call.entry = item at *
  have hkey : item.key = call.entry.key := by
    rw [FdbEntryItem.key, FdbEntryItem.key, hvlan, hmac]
  have hfind := find_of_mem hx (hke.trans hkey.symm)
  have hc : tbl.count item.compareByVlan = tbl.countVlan call.entry.vlanid :=
    congrArg tbl.countVlan hvlan
  have hcp : tbl.count item.compareByPort = tbl.countPort call.entry.ifIndex :=
    congrArg tbl.countPort hport
  have hdone : (tbl.insert { item with time := call.env.now }).2 = true := by
    have hmem : FdbEntryItem.key { item with time := call.env.now } ∈ tbl.items.map FdbEntryItem.key :=
      mem_map.mpr ⟨x, hx, hke.trans hkey.symm⟩
    rw [OrderedTable.insert, dif_pos hmem]
  have hprotected : decide (x.isBlock ≠ 0 ∨ x.isStatic ≠ 0 ∨ x.isMirror ≠ 0 ∨ x.isAuthen ≠ 0) =
      decide (x.isAuthen ≠ 0) := by
    simp only [FdbEntryItem.Protected, not_or, not_not] at hpr
    simp [hpr]
  simp only [npdFdbLearning, hit, hfind, hc, hcp, hmac, hkey, Option.any_some, hprotected]
  rw [hmac] at hdone
  simp [hdone, limited]

theorem LearnCall.refusedByVlan_iff (h : tbl.Knows call.entry) :
    call.RefusedByVlan limits tbl ↔
      call.Checks tbl ∧ limits.vlan call.entry.vlanid ≤ tbl.countVlan call.entry.vlanid ∧
        tbl.countPort call.entry.ifIndex < limits.port call.entry.ifIndex := by
  obtain ⟨x, hx, hke, hpr⟩ := h
  have hauthen : (∀ x ∈ tbl.items, x.key = call.entry.key → x.isAuthen = 0) ↔ x.isAuthen = 0 :=
    ⟨fun h => h x hx hke, fun h y hy hyk => eq_of_key_eq hx hy (hke.trans hyk.symm) ▸ h⟩
  have hlearn := LearnCall.learning_known limits hx hke hpr
  have hover (limit count : ℕ) : overLimit limit count = decide (limit ≤ count) := by
    simp [overLimit]
  have hno (count : ℕ) : overLimit (-1) count = false := rfl
  unfold RefusedByVlan Checks
  rw [hauthen]
  change npdFdbLearning { call.limited limits with
    vlan_limit := some (limits.vlan call.entry.vlanid : ℤ) } _ _ _ ≠ _ ↔ _
  rw [hlearn, hlearn, hover, hover, hno]
  split_ifs <;> simp_all

end

/-- **Limits on MAC addresses.** After any calls, a call does not raise the number of entries of a
VLAN or a port above its limit; and a call for an address that was learned in the VLAN before is
refused for the limit of the VLAN exactly if it comes to look at it, the VLAN is full and the port
has room. -/
theorem learning_within_limits {size : ℕ} (limits : Limits) (tbl : FdbTable size)
    (calls : List LearnCall) (call : LearnCall) :
    let tbl₁ := calls.foldl (fun tbl call => LearnCall.run limits tbl call) tbl
    let tbl₂ : FdbTable size := call.run limits tbl₁
    (∀ vid, tbl₂.countVlan vid ≤ max (tbl₁.countVlan vid) (limits.vlan vid)) ∧
      (∀ netif_index, tbl₂.countPort netif_index ≤
        max (tbl₁.countPort netif_index) (limits.port netif_index)) ∧
      (tbl₁.Knows call.entry →
        (¬call.RefusedByVlan limits tbl₁ ↔
          (call.Checks tbl₁ →
            tbl₁.countPort call.entry.ifIndex < limits.port call.entry.ifIndex →
              tbl₁.countVlan call.entry.vlanid < limits.vlan call.entry.vlanid))) := by
  intro tbl₁ tbl₂
  obtain ⟨hvlan, -, hport⟩ := learnedItem_fields (call.limited limits) call.entry
  refine ⟨fun vid => ?_, fun netif_index => ?_, fun hknows => ?_⟩
  · refine call.count_run_le limits _ fun hlt _ hp => ?_
    obtain rfl : vid = call.entry.vlanid := (of_decide_eq_true hp).trans hvlan
    rw [← hvlan] at hlt ⊢
    exact hlt
  · refine call.count_run_le limits _ fun _ hlt hp => ?_
    obtain rfl : netif_index = call.entry.ifIndex := (of_decide_eq_true hp).trans hport
    rw [← hport] at hlt ⊢
    exact hlt
  · rw [LearnCall.refusedByVlan_iff hknows, ← not_le]
    grind

def station : FdbEntryItem := { vlanid := 1, mac := Bytes.zero 6, ifIndex := 5 }

def stationTable : FdbTable 4 := (empty.insert station).1

/-- The station behind port 5 is seen behind port 7. -/
def moveCall : LearnCall :=
  ⟨⟨true, none, none, false, none, Bytes.six 0 1 2 3 4 5, 0⟩, 1, { station with ifIndex := 7 }, true⟩

theorem knows_station : stationTable.Knows moveCall.entry := ⟨station, by decide, rfl, by decide⟩

/-- It moves while its VLAN has room for another entry. -/
theorem learning_within_limits_move :
    let limits : Limits := ⟨fun _ => 2, fun _ => 10⟩
    let tbl₂ : FdbTable 4 := moveCall.run limits stationTable
    tbl₂.countVlan 1 ≤ 2 ∧ tbl₂.countPort 7 ≤ 10 ∧ ¬moveCall.RefusedByVlan limits stationTable := by
  intro limits tbl₂
  obtain ⟨hvlan, hport, hmoves⟩ := learning_within_limits limits stationTable [] moveCall
  exact ⟨hvlan 1, hport 7, (hmoves knows_station).mpr fun _ _ => by decide⟩

/-- It cannot move in a VLAN whose only entry is its own, if the VLAN takes one entry. -/
theorem learning_refuses_move :
    let limits : Limits := ⟨fun _ => 1, fun _ => 10⟩
    stationTable.Knows moveCall.entry ∧
      stationTable.countPort moveCall.entry.ifIndex < limits.port moveCall.entry.ifIndex ∧
      moveCall.RefusedByVlan limits stationTable ∧
      moveCall.run limits stationTable = stationTable :=
  ⟨knows_station, by decide, fun h => absurd (congrArg Prod.snd h) (by decide), rfl⟩

end Chanos.Fdb

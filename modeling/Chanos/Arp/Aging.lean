import Chanos.Arp.Table

/-!
# Aging of the ARP table

The thread `npd_arp_snooping_sync` wakes up every five seconds. It advances the clock, goes through
the drop entries from time to time (`npd_arp_snooping_drop_handle`), and through all entries that
have not been heard of for long (`npd_arp_snooping_age_handle`).
-/

namespace Chanos.Arp

open Lib List OrderedTable Option

variable {p : ArpProduct}

section

variable (now timeout : UInt32)

def npdArpSnoopingAge (tbl : ArpTable p) (arpItem : ArpItem) (flag : UInt32) : ArpTable p :=
  if arpItem.isStatic = 1 then tbl
  else if flag &&& arpsnpFlagDrop ≠ 0 ∧ arpItem.Drop then
    if ¬ arpItem.Hit then (npdArpSnoopingDel tbl arpItem).1 else tbl.update arpItem.clearHit
  else if flag &&& arpsnpFlagHit ≠ 0 then
    if ¬ arpItem.Hit then
      if now - arpItem.time > timeout then (npdArpSnoopingDel tbl arpItem).1 else tbl
    else tbl.update arpItem.clearHit
  else tbl

def npdArpSnoopingDropHandle (tbl : ArpTable p) : ArpTable p :=
  tbl.traversal (fun _ => true) fun tbl item => npdArpSnoopingAge now timeout tbl item arpsnpFlagDrop

def cmapMaxRuleNum : ℕ := 6000

def serPolicyPbIpHash (nexthopv4 : UInt32) : ℕ := (jhash1word nexthopv4 0x35798642).toNat % cmapMaxRuleNum

/-- `dbtable_hash_head_key` finds an entry of the table of policy routes for an address. -/
def serPolicyPbFound (routes : List UInt32) (ipAddr : UInt32) : Bool :=
  routes.any fun nexthopv4 => serPolicyPbIpHash nexthopv4 = serPolicyPbIpHash ipAddr

def npdArpItemOnceHandle : ℕ := 100

def ageLoop (routes : List UInt32) :
    ℕ → ArpTable p → Option ArpItem → ℕ → Option (ArpTable p × Option ArpItem)
  | 0, _, _, _ => none
  | _ + 1, tbl, none, _ => some (tbl, none)
  | fuel + 1, tbl, some start, count =>
    if start.isStatic ≠ 0 then ageLoop routes fuel tbl (tbl.next start) count
    else if serPolicyPbFound routes start.ipAddr then ageLoop routes fuel tbl (tbl.next start) count
    else if now - start.time > timeout - 300 then
      let next := tbl.next start
      let tbl := npdArpSnoopingAge now timeout tbl start arpsnpFlagAll
      if count + 1 > npdArpItemOnceHandle then some (tbl, next)
      else ageLoop routes fuel tbl next (count + 1)
    else ageLoop routes fuel tbl (tbl.next start) count

def npdArpSnoopingAgeHandle (routes : List UInt32) (tbl : ArpTable p) (start : ArpItem)
    (arp_aging_continue : Bool) : ArpTable p × ArpItem × Bool :=
  if timeout ≠ 0 then
    let first :=
      if start.mac = Bytes.zero 6 then tbl.head
      else tbl.headKey (npdArpSnoopingKeyGenerate p.table_size start.key)
    match ageLoop now timeout routes (tbl.items.length + 1) tbl first 0 with
    | some (tbl, some start) => (tbl, start, true)
    | some (tbl, none) => (tbl, .zero, false)
    | none => (tbl, start, arp_aging_continue)
  else (tbl, start, arp_aging_continue)

end

structure ArpState (p : ArpProduct) where
  tbl : ArpTable p
  timeout : UInt32
  arp_drop_enable : Bool
  arp_absolute_time : UInt32
  arp_aging_continue : Bool
  arpItem : ArpItem
  dropCnt : ℕ
  curtime : ℕ

def npdArpAgeAgeCnt : UInt32 := 600

def ArpState.init (p : ArpProduct) : ArpState p where
  tbl := .empty
  timeout := npdArpAgeAgeCnt
  arp_drop_enable := false
  arp_absolute_time := 0
  arp_aging_continue := false
  arpItem := .zero
  dropCnt := 0
  curtime := 0

variable (s : ArpState p)

def ArpState.dropHandle : ArpState p :=
  { s with tbl := npdArpSnoopingDropHandle s.arp_absolute_time s.timeout s.tbl }

def ArpState.ageHandle (routes : List UInt32) : ArpState p :=
  let r := npdArpSnoopingAgeHandle s.arp_absolute_time s.timeout routes s.tbl s.arpItem
    s.arp_aging_continue
  { s with tbl := r.1, arpItem := r.2.1, arp_aging_continue := r.2.2 }

def npdArpAgeInterval : ℕ := 5

def npdArpAgeDropCnt : ℕ := 2

def ArpState.tick : ArpState p :=
  { s with arp_absolute_time := s.arp_absolute_time + UInt32.ofNat npdArpAgeInterval }

def ArpState.dropTurn : ArpState p :=
  if s.dropCnt > npdArpAgeDropCnt then ArpState.dropHandle { s with dropCnt := 0 }
  else { s with dropCnt := s.dropCnt + 1 }

def ArpState.continueTurn (routes : List UInt32) : ArpState p :=
  if s.arp_aging_continue then s.ageHandle routes else s

def ArpState.ageTurn (routes : List UInt32) : ArpState p :=
  if (s.curtime + 1) * npdArpAgeInterval ≥ 30 then ArpState.ageHandle { s with curtime := 0 } routes
  else { s with curtime := s.curtime + 1 }

def ArpState.sync (isMasterActive : Bool) (routes : List UInt32) : ArpState p :=
  if isMasterActive then ((s.tick.dropTurn).continueTurn routes).ageTurn routes else s.tick

/-! ## The effect on the entries -/

section

variable (now timeout : UInt32)

def ArpItem.aged (flag : UInt32) (item : ArpItem) : Option ArpItem :=
  if item.isStatic = 1 then some item
  else if flag &&& arpsnpFlagDrop ≠ 0 ∧ item.Drop then
    if ¬ item.Hit then none else some item.clearHit
  else if flag &&& arpsnpFlagHit ≠ 0 then
    if ¬ item.Hit then if now - item.time > timeout then none else some item
    else some item.clearHit
  else some item

open ArpItem

def ArpItem.Due (routes : List UInt32) (item : ArpItem) : Prop :=
  item.isStatic = 0 ∧ serPolicyPbFound routes item.ipAddr = false ∧ now - item.time > timeout - 300

instance (routes : List UInt32) (item : ArpItem) : Decidable (item.Due now timeout routes) := by
  unfold Due
  infer_instance

def ArpItem.visited (routes : List UInt32) (item : ArpItem) : Option ArpItem :=
  if item.Due now timeout routes then item.aged now timeout arpsnpFlagAll else some item

variable {now timeout} {flag : UInt32} {item item' item'' : ArpItem} {routes : List UInt32}

namespace ArpItem

def Heir (item item' : ArpItem) : Prop := item' = item ∨ (item' = item.clearHit ∧ item.Hit)

theorem Heir.refl (item : ArpItem) : item.Heir item := .inl rfl

theorem Heir.trans (h : item.Heir item') (h' : item'.Heir item'') : item.Heir item'' := by
  rcases h with rfl | ⟨rfl, hh⟩
  · exact h'
  · rcases h' with rfl | ⟨rfl, hh'⟩
    · exact .inr ⟨rfl, hh⟩
    · exact absurd hh' item.not_hit_clearHit

theorem Heir.key_eq (h : item.Heir item') : item'.key = item.key := by
  rcases h with rfl | ⟨rfl, -⟩
  · rfl
  · rfl

theorem heir_of_aged (h : item.aged now timeout flag = some item') : item.Heir item' := by
  unfold aged at h
  split_ifs at h with hsa hd hh hf hh hi <;> cases h
  · exact .inl rfl
  · exact .inr ⟨rfl, hh⟩
  · exact .inr ⟨rfl, hh⟩
  all_goals exact .inl rfl

theorem heir_of_visited (h : item.visited now timeout routes = some item') : item.Heir item' := by
  unfold visited at h
  split_ifs at h
  · exact heir_of_aged h
  · exact .inl (some.inj h).symm

theorem aged_of_static (h : item.isStatic = 1) : item.aged now timeout flag = some item :=
  if_pos h

theorem visited_of_static (h : item.isStatic ≠ 0) : item.visited now timeout routes = some item :=
  if_neg fun hd => h hd.1

end ArpItem

theorem snoopingAge_items {tbl : ArpTable p} {pre post : List ArpItem}
    (h : tbl.items = pre ++ item :: post) :
    (npdArpSnoopingAge now timeout tbl item flag).items =
      pre ++ ((item.aged now timeout flag).toList ++ post) := by
  have hd : item.isStatic ≠ 1 → (npdArpSnoopingDel tbl item).1.items = pre ++ post := by
    intro hsa
    rw [npdArpSnoopingDel, if_neg hsa]
    exact erase_split h
  have hc : (tbl.update item.clearHit).items = pre ++ item.clearHit :: post :=
    update_split h rfl
  unfold npdArpSnoopingAge aged
  split_ifs with hsa hdr hh hf hh hi
  · exact h
  · exact hc
  · exact hd hsa
  · exact hc
  · exact hd hsa
  · exact h
  · exact h

theorem dropHandle_items (tbl : ArpTable p) :
    (npdArpSnoopingDropHandle now timeout tbl).items =
      tbl.items.filterMap (aged now timeout arpsnpFlagDrop) :=
  items_traversal (fun _ _ _ _ => snoopingAge_items) tbl

/-! ## The effect of a pass -/

variable {tbl : ArpTable p} {start : ArpItem} {fuel count : ℕ}

theorem ageLoop_of_not_due (h : ¬ start.Due now timeout routes) :
    ageLoop now timeout routes (fuel + 1) tbl (some start) count =
      ageLoop now timeout routes fuel tbl (tbl.next start) count := by
  rw [ageLoop]
  split_ifs with hsa hr hi hc
  · rfl
  · rfl
  · exact absurd ⟨not_not.mp hsa, Bool.eq_false_of_not_eq_true hr, hi⟩ h
  · exact absurd ⟨not_not.mp hsa, Bool.eq_false_of_not_eq_true hr, hi⟩ h
  · rfl

theorem ageLoop_of_due (h : start.Due now timeout routes) :
    ageLoop now timeout routes (fuel + 1) tbl (some start) count =
      if count + 1 > npdArpItemOnceHandle then
        some (npdArpSnoopingAge now timeout tbl start arpsnpFlagAll, tbl.next start)
      else ageLoop now timeout routes fuel (npdArpSnoopingAge now timeout tbl start arpsnpFlagAll)
        (tbl.next start) (count + 1) := by
  obtain ⟨hsa, hr, hi⟩ := h
  rw [ageLoop, if_neg (not_not.mpr hsa), if_neg (by rw [hr]; exact Bool.false_ne_true), if_pos hi]

theorem ageLoop_eq_some (now timeout : UInt32) (routes : List UInt32) (count : ℕ)
    {rest pre : List ArpItem} (h : tbl.items = pre ++ rest) (hf : rest.length < fuel) :
    ∃ tbl' visited unvisited,
      ageLoop now timeout routes fuel tbl rest.head? count = some (tbl', unvisited.head?) ∧
        rest = visited ++ unvisited ∧
        tbl'.items = pre ++ (visited.filterMap (ArpItem.visited now timeout routes) ++ unvisited) ∧
        (unvisited ≠ [] →
          npdArpItemOnceHandle < count + visited.countP (·.Due now timeout routes)) := by
  induction rest generalizing pre tbl fuel count with
  | nil =>
    obtain ⟨fuel, rfl⟩ : ∃ n, fuel = n + 1 := ⟨fuel - 1, by simp at hf; omega⟩
    exact ⟨tbl, [], [], by rw [head?_nil, ageLoop], rfl, h, absurd rfl⟩
  | cons x rest ih =>
    obtain ⟨fuel, rfl⟩ : ∃ n, fuel = n + 1 := ⟨fuel - 1, by simp at hf; omega⟩
    have hf' : rest.length < fuel := by rw [length_cons] at hf; omega
    have hn : tbl.next x = rest.head? := next_split h
    by_cases hd : x.Due now timeout routes
    · have hv : x.visited now timeout routes = x.aged now timeout arpsnpFlagAll := if_pos hd
      have hi : (npdArpSnoopingAge now timeout tbl x arpsnpFlagAll).items =
          pre ++ ((x.visited now timeout routes).toList ++ rest) := by
        rw [hv]
        exact snoopingAge_items h
      rw [head?_cons, ageLoop_of_due hd, hn]
      split_ifs with hc
      · -- The loop ends here, and the rest is left to the next pass.
        refine ⟨_, [x], rest, rfl, rfl, ?_, fun _ => ?_⟩
        · rw [hi, ← toList_append_filterMap, filterMap_nil, append_nil]
        · rw [countP_cons_of_pos (by simpa using hd), countP_nil]
          omega
      · rw [← append_assoc] at hi
        obtain ⟨tbl', visited, unvisited, hrun, rfl, htbl, hma⟩ := ih _ hi hf'
        refine ⟨tbl', x :: visited, unvisited, hrun, rfl, ?_, fun hne => ?_⟩
        · rw [htbl, append_assoc, ← append_assoc (toList _), toList_append_filterMap]
        · have := hma hne
          rw [countP_cons_of_pos (by simpa using hd)]
          omega
    · have hv : x.visited now timeout routes = some x := if_neg hd
      have hi : tbl.items = (pre ++ [x]) ++ rest := by rw [h, append_assoc, singleton_append]
      rw [head?_cons, ageLoop_of_not_due hd, hn]
      obtain ⟨tbl', visited, unvisited, hrun, rfl, htbl, hma⟩ := ih _ hi hf'
      refine ⟨tbl', x :: visited, unvisited, hrun, rfl, ?_, fun hne => ?_⟩
      · rw [htbl, filterMap_cons_some hv, append_assoc, singleton_append, cons_append]
      · rw [countP_cons_of_neg (by simpa using hd)]
        exact hma hne

structure Passes (now timeout : UInt32) (routes : List UInt32) (tbl : ArpTable p) (start : ArpItem)
    (tbl' : ArpTable p) (start' : ArpItem) (pre visited unvisited : List ArpItem) : Prop where
  items : tbl.items = pre ++ (visited ++ unvisited)
  items' : tbl'.items = pre ++ (visited.filterMap (ArpItem.visited now timeout routes) ++ unvisited)
  first : start.mac = Bytes.zero 6 → pre = []
  left : start' = unvisited.head?.getD .zero
  handled : unvisited ≠ [] → ∃ item ∈ visited, item.Due now timeout routes

theorem ageHandle_spec (ht : timeout ≠ 0) (tbl : ArpTable p) (start : ArpItem)
    (arp_aging_continue : Bool) :
    ∃ tbl' start' pre visited unvisited,
      npdArpSnoopingAgeHandle now timeout routes tbl start arp_aging_continue =
        (tbl', start', decide (unvisited ≠ [])) ∧
      Passes now timeout routes tbl start tbl' start' pre visited unvisited := by
  obtain ⟨pre, rest, hi, hh, hf⟩ : ∃ pre rest, tbl.items = pre ++ rest ∧
      (if start.mac = Bytes.zero 6 then tbl.head
        else tbl.headKey (npdArpSnoopingKeyGenerate p.table_size start.key)) = rest.head? ∧
      (start.mac = Bytes.zero 6 → pre = []) := by
    split_ifs with hmc
    · exact ⟨[], tbl.items, rfl, rfl, fun _ => rfl⟩
    · obtain ⟨pre, rest, hi, hh⟩ := tbl.headKey_split _
      exact ⟨pre, rest, hi, hh, fun h => absurd h hmc⟩
  have hfu : rest.length < tbl.items.length + 1 := by
    rw [hi, length_append]
    omega
  obtain ⟨tbl', visited, unvisited, hrun, rfl, htbl', hma⟩ :=
    ageLoop_eq_some now timeout routes 0 hi hfu
  have hhd : unvisited ≠ [] → ∃ item ∈ visited, item.Due now timeout routes := by
    intro hne
    have hp : 0 < visited.countP (·.Due now timeout routes) := by
      have := hma hne
      omega
    obtain ⟨item, hme, hd⟩ := countP_pos_iff.mp hp
    exact ⟨item, hme, of_decide_eq_true hd⟩
  refine ⟨tbl', unvisited.head?.getD .zero, pre, visited, unvisited, ?_, hi, htbl', hf, rfl, hhd⟩
  unfold npdArpSnoopingAgeHandle
  rw [if_pos ht]
  dsimp only
  rw [hh, hrun]
  cases unvisited with
  | nil => rfl
  | cons x l => rfl

def Ages (tbl tbl' : ArpTable p) : Prop := ∀ item' ∈ tbl'.items, ∃ item ∈ tbl.items, item.Heir item'

theorem Ages.refl (tbl : ArpTable p) : Ages tbl tbl := fun item hit => ⟨item, hit, .refl item⟩

theorem Ages.trans {tbl' tbl'' : ArpTable p} (h : Ages tbl tbl') (h' : Ages tbl' tbl'') :
    Ages tbl tbl'' := by
  intro item'' hit''
  obtain ⟨item', hit', hh'⟩ := h' item'' hit''
  obtain ⟨item, hit, hh⟩ := h item' hit'
  exact ⟨item, hit, hh.trans hh'⟩

theorem Ages.shrinks {tbl' : ArpTable p} (h : Ages tbl tbl') : tbl.Shrinks tbl' := by
  intro k hk
  obtain ⟨item', hit', rfl⟩ := mem_map.mp hk
  obtain ⟨item, hit, hh⟩ := h item' hit'
  rw [hh.key_eq]
  exact mem_map_of_mem hit

theorem ages_dropHandle (tbl : ArpTable p) : Ages tbl (npdArpSnoopingDropHandle now timeout tbl) := by
  intro item' hit'
  rw [dropHandle_items, mem_filterMap] at hit'
  obtain ⟨item, hit, ha⟩ := hit'
  exact ⟨item, hit, heir_of_aged ha⟩

/-- A pass leaves an heir of each entry that it visits, or none, and the others as they are. -/
theorem ageHandle_items (tbl : ArpTable p) (start : ArpItem) (arp_aging_continue : Bool) :
    ∃ pre visited unvisited, tbl.items = pre ++ (visited ++ unvisited) ∧
      (npdArpSnoopingAgeHandle now timeout routes tbl start arp_aging_continue).1.items =
        pre ++ (visited.filterMap (ArpItem.visited now timeout routes) ++ unvisited) := by
  by_cases ht : timeout = 0
  · rw [npdArpSnoopingAgeHandle, if_neg (not_not.mpr ht)]
    exact ⟨tbl.items, [], [], (append_nil _).symm, (append_nil _).symm⟩
  · obtain ⟨tbl', start', pre, visited, unvisited, hrun, hp⟩ :=
      ageHandle_spec (p := p) ht tbl start arp_aging_continue
    rw [hrun]
    exact ⟨pre, visited, unvisited, hp.items, hp.items'⟩

theorem ages_ageHandle (tbl : ArpTable p) (start : ArpItem) (arp_aging_continue : Bool) :
    Ages tbl (npdArpSnoopingAgeHandle now timeout routes tbl start arp_aging_continue).1 := by
  obtain ⟨pre, visited, unvisited, hi, hi'⟩ := ageHandle_items tbl start arp_aging_continue
  intro item' hme
  rw [hi', mem_append, mem_append, mem_filterMap] at hme
  rw [hi]
  rcases hme with hme | ⟨item, hme, hit⟩ | hme
  · exact ⟨item', mem_append_left _ hme, .refl item'⟩
  · exact ⟨item, mem_append_right _ (mem_append_left _ hme), heir_of_visited hit⟩
  · exact ⟨item', mem_append_right _ (mem_append_right _ hme), .refl item'⟩

theorem mem_dropHandle (ha : item.aged now timeout arpsnpFlagDrop = some item)
    (hit : item ∈ tbl.items) : item ∈ (npdArpSnoopingDropHandle now timeout tbl).items := by
  rw [dropHandle_items]
  exact mem_filterMap.mpr ⟨item, hit, ha⟩

theorem mem_ageHandle (hv : item.visited now timeout routes = some item') (hit : item ∈ tbl.items)
    (start : ArpItem) (arp_aging_continue : Bool) :
    let tbl' := (npdArpSnoopingAgeHandle now timeout routes tbl start arp_aging_continue).1
    item ∈ tbl'.items ∨ item' ∈ tbl'.items := by
  obtain ⟨pre, visited, unvisited, hi, hi'⟩ := ageHandle_items tbl start arp_aging_continue
  dsimp only
  rw [hi', mem_append, mem_append, mem_append, mem_append]
  rw [hi, mem_append, mem_append] at hit
  rcases hit with hit | hit | hit
  · exact .inl (.inl hit)
  · exact .inr (.inr (.inl (mem_filterMap.mpr ⟨item, hit, hv⟩)))
  · exact .inl (.inr (.inr hit))

end

/-! ## Turns of the thread -/

namespace ArpState

variable (s : ArpState p) (routes : List UInt32)

theorem dropTurn_clock :
    s.dropTurn.arp_absolute_time = s.arp_absolute_time ∧ s.dropTurn.timeout = s.timeout := by
  unfold dropTurn
  split_ifs <;> exact ⟨rfl, rfl⟩

theorem continueTurn_clock : (s.continueTurn routes).arp_absolute_time = s.arp_absolute_time ∧
    (s.continueTurn routes).timeout = s.timeout := by
  unfold continueTurn
  split_ifs <;> exact ⟨rfl, rfl⟩

theorem ageTurn_clock : (s.ageTurn routes).arp_absolute_time = s.arp_absolute_time ∧
    (s.ageTurn routes).timeout = s.timeout := by
  unfold ageTurn
  split_ifs <;> exact ⟨rfl, rfl⟩

theorem mem_sync {s : ArpState p} {routes : List UInt32} {item : ArpItem}
    (ha : item.aged s.tick.arp_absolute_time s.timeout arpsnpFlagDrop = some item)
    (hv : item.visited s.tick.arp_absolute_time s.timeout routes = some item)
    (hit : item ∈ s.tbl.items) (isMasterActive : Bool) :
    item ∈ (s.sync isMasterActive routes).tbl.items := by
  have hd : item ∈ s.tick.dropTurn.tbl.items := by
    unfold dropTurn
    split_ifs
    · exact mem_dropHandle ha hit
    · exact hit
  obtain ⟨htm, ht⟩ := s.tick.dropTurn_clock
  change item.visited s.tick.arp_absolute_time s.tick.timeout routes = some item at hv
  rw [← htm, ← ht] at hv
  have hc : item ∈ (s.tick.dropTurn.continueTurn routes).tbl.items := by
    unfold continueTurn
    split_ifs
    · exact or_self_iff.mp (mem_ageHandle hv hd _ _)
    · exact hd
  obtain ⟨htm', ht'⟩ := s.tick.dropTurn.continueTurn_clock routes
  rw [← htm', ← ht'] at hv
  unfold sync
  split_ifs
  · unfold ageTurn
    split_ifs
    · exact or_self_iff.mp (mem_ageHandle hv hc _ _)
    · exact hc
  · exact hit

theorem ages_dropTurn : Ages s.tbl s.dropTurn.tbl := by
  unfold dropTurn
  split_ifs
  · exact ages_dropHandle s.tbl
  · exact Ages.refl s.tbl

theorem ages_continueTurn : Ages s.tbl (s.continueTurn routes).tbl := by
  unfold continueTurn
  split_ifs
  · exact ages_ageHandle s.tbl s.arpItem s.arp_aging_continue
  · exact Ages.refl s.tbl

theorem ages_ageTurn : Ages s.tbl (s.ageTurn routes).tbl := by
  unfold ageTurn
  split_ifs
  · exact ages_ageHandle s.tbl s.arpItem s.arp_aging_continue
  · exact Ages.refl s.tbl

theorem ages_sync (isMasterActive : Bool) : Ages s.tbl (s.sync isMasterActive routes).tbl := by
  unfold sync
  split_ifs
  · exact (s.tick.ages_dropTurn.trans (ages_continueTurn _ routes)).trans (ages_ageTurn _ routes)
  · exact Ages.refl s.tbl

end ArpState

end Chanos.Arp

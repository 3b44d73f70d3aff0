import Chanos.Arp.Static

/-!
# When an idle entry is gone

How long a dynamic entry that is not heard of stays in the table. A pass clears the hit of an entry
first, and deletes it the next time. Unless the timeout is below 300 seconds or a policy route is
found for the entry, it is gone in the end (`gone_iff`).
-/

namespace Chanos.Arp

open Lib List UInt32

variable {p : ArpProduct}

theorem sum_filterMap {α β : Type*} (f : α → Option β) (w : β → ℕ) (l : List α) :
    ((l.filterMap f).map w).sum = (l.map fun a => (f a).elim 0 w).sum := by
  induction l with
  | nil => rfl
  | cons a l ih => cases ha : f a <;> simp [ha, ih]

def total (w : ArpItem → ℕ) (tbl : ArpTable p) : ℕ := (tbl.items.map w).sum

section

variable {now timeout : UInt32} {routes : List UInt32} {tbl tbl' : ArpTable p} {start start' : ArpItem}
  {pre visited unvisited : List ArpItem} {w w' : ArpItem → ℕ}

theorem elim_heir_le (h : ∀ item item', item.Heir item' → w' item' ≤ w item) {item : ArpItem}
    {o : Option ArpItem} (ho : ∀ item', o = some item' → item.Heir item') : o.elim 0 w' ≤ w item := by
  cases o with
  | none => exact Nat.zero_le _
  | some item' => exact h item item' (ho item' rfl)

theorem total_dropHandle_le (h : ∀ item item', item.Heir item' → w item' ≤ w item) (tbl : ArpTable p) :
    total w (npdArpSnoopingDropHandle now timeout tbl) ≤ total w tbl := by
  unfold total
  rw [dropHandle_items, sum_filterMap]
  exact sum_le_sum fun item _ => elim_heir_le h fun _ ha => ArpItem.heir_of_aged ha

section

variable (hpass : Passes now timeout routes tbl start tbl' start' pre visited unvisited)
  (h : ∀ item item', item.Heir item' → w' item' ≤ w item)

include h in
theorem sum_heirs_le (l : List ArpItem) : (l.map w').sum ≤ (l.map w).sum :=
  sum_le_sum fun item _ => h item item (.refl item)

include h in
theorem elim_visited_le (item : ArpItem) :
    (item.visited now timeout routes).elim 0 w' ≤ w item :=
  elim_heir_le h fun _ ha => ArpItem.heir_of_visited ha

include hpass h

/-- The entries that a pass does not visit stay, so the total falls by as much as theirs. -/
theorem Passes.total_add_le {n : ℕ}
    (hn : (visited.map fun item => (item.visited now timeout routes).elim 0 w').sum + n ≤
      (visited.map w).sum) : total w' tbl' + n ≤ total w tbl := by
  have hp := sum_heirs_le h pre
  have hu := sum_heirs_le h unvisited
  unfold total
  rw [hpass.items, hpass.items', map_append, map_append, map_append, map_append, sum_append,
    sum_append, sum_append, sum_append, sum_filterMap]
  omega

theorem Passes.total_le : total w' tbl' ≤ total w tbl :=
  hpass.total_add_le h (n := 0) (sum_le_sum fun item _ => elim_visited_le h item)

theorem Passes.total_lt {item : ArpItem} (hi : item ∈ visited) (hp : 0 < w item)
    (hlt : ∀ item', item.visited now timeout routes = some item' → w' item' < w item) :
    total w' tbl' < total w tbl := by
  refine hpass.total_add_le h (n := 1) (sum_lt_sum _ _ (fun item _ => elim_visited_le h item)
    ⟨item, hi, ?_⟩)
  cases hv : item.visited now timeout routes with
  | none => exact hp
  | some item' => exact hlt item' hv

end

end

/-! ## What is left to an entry -/

def ArpItem.idle (now : UInt32) (item : ArpItem) : ℕ := (now - item.time).toNat

open ArpItem

def ArpItem.wait (now timeout : UInt32) (bound : ℕ) (item : ArpItem) : ℕ :=
  if item.idle now + 300 ≤ timeout.toNat then 60
  else if item.idle now ≤ timeout.toNat then (timeout.toNat - item.idle now) / 5 + 1
  else if bound < item.idle now then 60
  else 0

def ArpItem.cost (now timeout : UInt32) (bound : ℕ) (item : ArpItem) : ℕ :=
  1 + (if item.Hit then 1 else 0) + item.wait now timeout bound

section

variable {now timeout : UInt32} {bound : ℕ} {item item' : ArpItem} {routes : List UInt32}

namespace ArpItem

theorem idle_tick (now : UInt32) (item : ArpItem) :
    item.idle (now + 5) = (item.idle now + 5) % 2 ^ 32 := by
  unfold idle
  rw [show now + 5 - item.time = now - item.time + 5 from by grind, UInt32.toNat_add]
  rfl

theorem idle_lt (now : UInt32) (item : ArpItem) : item.idle now < 2 ^ 32 :=
  (now - item.time).toNat_lt

section

variable (h : item.Heir item')
include h

theorem Heir.due_iff : item'.Due now timeout routes ↔ item.Due now timeout routes := by
  rcases h with rfl | ⟨rfl, -⟩
  all_goals exact Iff.rfl

theorem Heir.isStatic_eq : item'.isStatic = item.isStatic := by
  rcases h with rfl | ⟨rfl, -⟩
  · rfl
  · rfl

theorem Heir.drop_iff : item'.Drop ↔ item.Drop := by
  rcases h with rfl | ⟨rfl, -⟩
  · exact Iff.rfl
  · exact item.drop_clearHit_iff

theorem Heir.hit (hh : item'.Hit) : item.Hit := by
  rcases h with rfl | ⟨rfl, hh'⟩
  · exact hh
  · exact hh'

end

theorem aged_of_drop (hd : item.isStatic = 0) (hdr : item.Drop) :
    item.aged now timeout arpsnpFlagDrop = if ¬ item.Hit then none else some item.clearHit := by
  have hf : arpsnpFlagDrop &&& arpsnpFlagDrop ≠ 0 := by decide
  unfold aged
  rw [if_neg (by rw [hd]; decide), if_pos ⟨hf, hdr⟩]

theorem aged_of_not_drop (hd : ¬ item.Drop) :
    item.aged now timeout arpsnpFlagDrop = some item := by
  have hf : ¬ arpsnpFlagDrop &&& arpsnpFlagHit ≠ 0 := by decide
  unfold aged
  split_ifs with hsa hb
  · rfl
  · exact absurd hb.2 hd
  · exact absurd hb.2 hd
  · rfl

theorem cost_clearHit_lt (hh : item.Hit) :
    item.clearHit.cost now timeout bound < item.cost now timeout bound := by
  unfold cost
  rw [if_pos hh, if_neg item.not_hit_clearHit]
  change 1 + 0 + item.wait now timeout bound < 1 + 1 + item.wait now timeout bound
  omega

theorem Heir.cost_le (h : item.Heir item') :
    item'.cost now timeout bound ≤ item.cost now timeout bound := by
  rcases h with rfl | ⟨rfl, hh⟩
  · exact le_rfl
  · exact (cost_clearHit_lt hh).le

theorem cost_pos : 0 < item.cost now timeout bound := by
  unfold cost
  omega

theorem cost_le (now timeout : UInt32) (bound : ℕ) (item : ArpItem) :
    item.cost now timeout bound ≤ 62 := by
  unfold cost wait
  split_ifs <;> omega

theorem aged_all_cases (hsa : item.isStatic = 0)
    (h : item.aged now timeout arpsnpFlagAll = some item') :
    (item' = item.clearHit ∧ item.Hit) ∨ (item' = item ∧ ¬ now - item.time > timeout) := by
  have hd : arpsnpFlagAll &&& arpsnpFlagDrop ≠ 0 := by decide
  have hh : arpsnpFlagAll &&& arpsnpFlagHit ≠ 0 := by decide
  unfold aged at h
  rw [if_neg (by rw [hsa]; decide)] at h
  split_ifs at h with hi hi hi hidle <;> cases h
  · exact .inl ⟨rfl, hi⟩
  · exact .inl ⟨rfl, hi⟩
  · exact .inr ⟨rfl, hidle⟩

variable (hbd : timeout.toNat < bound) (hclk : bound + 5 < 2 ^ 32)
include hbd hclk

theorem wait_tick_le :
    item.wait (now + 5) timeout (bound + 5) ≤ item.wait now timeout bound := by
  have hidle := item.idle_lt now
  have hsu : (item.idle now + 5) % 2 ^ 32 = item.idle now + 5 ∨
      (2 ^ 32 ≤ item.idle now + 5 ∧ (item.idle now + 5) % 2 ^ 32 = item.idle now + 5 - 2 ^ 32) := by
    omega
  unfold wait
  rw [item.idle_tick]
  rcases hsu with hsu | ⟨hwr, hsu⟩
  all_goals
    rw [hsu]
    split_ifs <;> omega

theorem wait_tick_lt (hp : timeout.toNat < item.idle now + 300)
    (hidle : item.idle now ≤ timeout.toNat) :
    item.wait (now + 5) timeout (bound + 5) < item.wait now timeout bound := by
  have hsu : (item.idle now + 5) % 2 ^ 32 = item.idle now + 5 := by omega
  unfold wait
  rw [item.idle_tick, hsu]
  split_ifs <;> omega

theorem cost_tick_le :
    item.cost (now + 5) timeout (bound + 5) ≤ item.cost now timeout bound := by
  have hwa : item.wait (now + 5) timeout (bound + 5) ≤ item.wait now timeout bound :=
    item.wait_tick_le hbd hclk
  unfold cost
  omega

theorem cost_handled_lt (htout : 300 ≤ timeout.toNat) (hdue : item.Due now timeout routes)
    (h : item.visited now timeout routes = some item') :
    item'.cost (now + 5) timeout (bound + 5) < item.cost now timeout bound := by
  have ht : item'.cost (now + 5) timeout (bound + 5) ≤ item'.cost now timeout bound :=
    item'.cost_tick_le hbd hclk
  have ha : item.aged now timeout arpsnpFlagAll = some item' := by
    rw [visited, if_pos hdue] at h
    exact h
  obtain ⟨hsa, -, ho⟩ := hdue
  rcases aged_all_cases hsa ha with ⟨rfl, hh⟩ | ⟨rfl, hyo⟩
  · exact ht.trans_lt (cost_clearHit_lt hh)
  -- It is not deleted yet, but it is waiting.
  have hidle : item'.idle now ≤ timeout.toNat := UInt32.le_iff_toNat_le.mp (UInt32.not_lt.mp hyo)
  have hp : timeout.toNat < item'.idle now + 300 := by
    have hlt := lt_iff_toNat_lt.mp ho
    rw [UInt32.toNat_sub_of_le timeout 300 (UInt32.le_iff_toNat_le.mpr htout)] at hlt
    have h300 : (300 : UInt32).toNat = 300 := rfl
    unfold idle
    omega
  have hwa := item'.wait_tick_lt hbd hclk hp hidle
  unfold cost
  omega

end ArpItem

end

/-! ## A turn of the thread -/

def resumes (start : ArpItem) : ℕ := if start.mac = Bytes.zero 6 then 0 else 1

theorem resumes_le (start : ArpItem) : resumes start ≤ 1 := by
  unfold resumes
  split_ifs <;> omega

section

variable {now timeout : UInt32} {bound : ℕ} {routes : List UInt32} {item : ArpItem}

theorem total_tick_le (now : UInt32) (hbd : timeout.toNat < bound) (hclk : bound + 5 < 2 ^ 32)
    (tbl : ArpTable p) :
    total (cost (now + 5) timeout (bound + 5)) tbl ≤ total (cost now timeout bound) tbl :=
  sum_le_sum fun _ _ => cost_tick_le hbd hclk

structure Progress (now timeout : UInt32) (bound : ℕ) (tbl : ArpTable p) (start : ArpItem)
    (tbl' : ArpTable p) (start' : ArpItem) : Prop where
  le : total (cost now timeout bound) tbl' ≤ total (cost now timeout bound) tbl
  le_next : total (cost (now + 5) timeout (bound + 5)) tbl' ≤
    total (cost (now + 5) timeout (bound + 5)) tbl
  lt_or : total (cost (now + 5) timeout (bound + 5)) tbl' <
      total (cost now timeout bound) tbl ∨ (resumes start = 1 ∧ resumes start' = 0)

theorem ageHandle_progress (hbd : timeout.toNat < bound) (hclk : bound + 5 < 2 ^ 32)
    (htout : 300 ≤ timeout.toNat) {tbl : ArpTable p} (hi : item ∈ tbl.items)
    (hdue : item.Due now timeout routes) (start : ArpItem) (arp_aging_continue : Bool) :
    Progress now timeout bound tbl start
      (npdArpSnoopingAgeHandle now timeout routes tbl start arp_aging_continue).1
      (npdArpSnoopingAgeHandle now timeout routes tbl start arp_aging_continue).2.1 := by
  have hne : timeout ≠ 0 := by
    rintro rfl
    cases htout
  obtain ⟨tbl', start', pre, visited, unvisited, hrun, hpass⟩ :=
    ageHandle_spec (p := p) hne tbl start arp_aging_continue
  rw [hrun]
  refine ⟨hpass.total_le fun _ _ h => h.cost_le, hpass.total_le fun _ _ h => h.cost_le, ?_⟩
  -- An entry that is handled makes the sum smaller.
  have hh : (∃ e ∈ visited, e.Due now timeout routes) →
      total (cost (now + 5) timeout (bound + 5)) tbl' < total (cost now timeout bound) tbl := by
    rintro ⟨e, he, hed⟩
    exact hpass.total_lt (fun _ _ h => (cost_tick_le hbd hclk).trans h.cost_le) he
      cost_pos fun e' he' => cost_handled_lt hbd hclk htout hed he'
  by_cases hu : unvisited = []
  · rw [hpass.items, hu, append_nil, mem_append] at hi
    rcases hi with hp | hv
    · right
      have hma : start.mac ≠ Bytes.zero 6 := by
        intro hma
        rw [hpass.first hma] at hp
        exact absurd hp not_mem_nil
      refine ⟨if_neg hma, ?_⟩
      rw [hpass.left, hu]
      exact if_pos rfl
    · exact .inl (hh ⟨item, hv, hdue⟩)
  · exact .inl (hh (hpass.handled hu))

end

namespace ArpState

variable {n : ℕ} (s : ArpState p)

def costs (x : ArpItem) : ℕ :=
  total (cost s.arp_absolute_time s.timeout (x.idle s.arp_absolute_time)) s.tbl

def nextCosts (x : ArpItem) : ℕ :=
  total (cost (s.arp_absolute_time + 5) s.timeout (x.idle s.arp_absolute_time + 5)) s.tbl

def rank (x : ArpItem) : ℕ :=
  6 * (2 * s.nextCosts x + resumes s.arpItem) + (5 - s.curtime)

variable {s : ArpState p} {routes : List UInt32} {x y : ArpItem}

theorem dropTurn_progress {w : ArpItem → ℕ} (h : ∀ item item', item.Heir item' → w item' ≤ w item)
    (s : ArpState p) :
    total w s.dropTurn.tbl ≤ total w s.tbl ∧ s.dropTurn.arpItem = s.arpItem ∧
      s.dropTurn.curtime = s.curtime := by
  unfold dropTurn
  split_ifs
  · exact ⟨total_dropHandle_le h s.tbl, rfl, rfl⟩
  · exact ⟨le_rfl, rfl, rfl⟩

section

variable (routes : List UInt32) (bound : ℕ) (hbd : s.timeout.toNat < bound)
  (hclk : bound + 5 < 2 ^ 32) (htout : 300 ≤ s.timeout.toNat) (hy : y ∈ s.tbl.items)
  (hdue : y.Due s.arp_absolute_time s.timeout routes)
include hbd hclk htout hy hdue

theorem continueTurn_progress :
    (s.continueTurn routes).curtime = s.curtime ∧
      (((s.continueTurn routes).tbl = s.tbl ∧ (s.continueTurn routes).arpItem = s.arpItem) ∨
        Progress s.arp_absolute_time s.timeout bound s.tbl s.arpItem (s.continueTurn routes).tbl
          (s.continueTurn routes).arpItem) := by
  unfold continueTurn
  split_ifs
  · exact ⟨rfl, .inr (ageHandle_progress hbd hclk htout hy hdue _ _)⟩
  · exact ⟨rfl, .inl ⟨rfl, rfl⟩⟩

theorem ageTurn_progress :
    (s.curtime < 5 ∧ (s.ageTurn routes).curtime = s.curtime + 1 ∧ (s.ageTurn routes).tbl = s.tbl ∧
        (s.ageTurn routes).arpItem = s.arpItem) ∨
      ((s.ageTurn routes).curtime = 0 ∧
        Progress s.arp_absolute_time s.timeout bound s.tbl s.arpItem (s.ageTurn routes).tbl
          (s.ageTurn routes).arpItem) := by
  unfold ageTurn npdArpAgeInterval
  split_ifs with hd
  · exact .inr ⟨rfl, ageHandle_progress hbd hclk htout hy hdue _ _⟩
  · exact .inl ⟨by omega, rfl, rfl, rfl⟩

end

section

variable (htout : 300 ≤ s.timeout.toNat) (hidle : s.timeout.toNat < x.idle s.arp_absolute_time)
include htout hidle

theorem rank_turns_lt (hclk : x.idle s.arp_absolute_time + 5 < 2 ^ 32)
    (hy : y ∈ ((s.continueTurn routes).ageTurn routes).tbl.items)
    (hdue : y.Due s.arp_absolute_time s.timeout routes) :
    ((s.continueTurn routes).ageTurn routes).rank x <
      6 * (2 * s.costs x + resumes s.arpItem) + (5 - s.curtime) := by
  -- The entry is there at the begin of both parts.
  obtain ⟨y₂, hy₂, hheir₂⟩ := (s.continueTurn routes).ages_ageTurn routes y hy
  obtain ⟨y₁, hy₁, hheir₁⟩ := s.ages_continueTurn routes y₂ hy₂
  have hdue₂ : y₂.Due s.arp_absolute_time s.timeout routes := hheir₂.due_iff.mp hdue
  have hdue₁ : y₁.Due s.arp_absolute_time s.timeout routes := hheir₁.due_iff.mp hdue₂
  obtain ⟨htime₂, htimeout₂⟩ := s.continueTurn_clock routes
  obtain ⟨htime₃, htimeout₃⟩ := (s.continueTurn routes).ageTurn_clock routes
  obtain ⟨hc, hcn⟩ :=
    continueTurn_progress routes (x.idle s.arp_absolute_time) hidle hclk htout hy₁ hdue₁
  have ha := ageTurn_progress routes (x.idle s.arp_absolute_time) (by rw [htimeout₂]; exact hidle)
    hclk (by rw [htimeout₂]; exact htout) hy₂ (by rw [htime₂, htimeout₂]; exact hdue₂)
  rw [htime₂, htimeout₂] at ha
  unfold rank nextCosts costs
  rw [htime₃, htimeout₃, htime₂, htimeout₂]
  generalize (s.continueTurn routes).ageTurn routes = s₃ at *
  generalize s.continueTurn routes = s₂ at *
  -- What is left is arithmetic: the costs go down, or the pass begins anew.
  have ht := total_tick_le s.arp_absolute_time hidle hclk s.tbl
  have hr := resumes_le s.arpItem
  have hres₂ := resumes_le s₂.arpItem
  have hres₃ := resumes_le s₃.arpItem
  rcases hcn with ⟨htbl₂, hitem₂⟩ | ⟨hle, hle', hlt⟩
  · rw [htbl₂, hitem₂, hc] at ha
    rcases ha with ⟨hcu, hcurtime₃, htbl₃, hitem₃⟩ | ⟨hcurtime₃, hle₃, hle₃', hlt₃⟩
    · rw [htbl₃, hitem₃, hcurtime₃]
      omega
    · omega
  · rcases ha with ⟨hcu, hcurtime₃, htbl₃, hitem₃⟩ | ⟨hcurtime₃, hle₃, hle₃', hlt₃⟩
    · rw [htbl₃, hitem₃, hcurtime₃, hc]
      omega
    · omega

theorem rank_sync_lt (hclk : x.idle s.arp_absolute_time + 10 < 2 ^ 32)
    (hy : y ∈ (s.sync true routes).tbl.items)
    (hdue : y.Due (s.arp_absolute_time + 5) s.timeout routes) :
    (s.sync true routes).rank x < s.rank x := by
  obtain ⟨htm, htout'⟩ := s.tick.dropTurn_clock
  have ht : x.idle (s.arp_absolute_time + 5) = x.idle s.arp_absolute_time + 5 := by
    rw [x.idle_tick]
    omega
  have hn : s.tick.dropTurn.arp_absolute_time = s.arp_absolute_time + 5 := htm
  have hsm : s.tick.dropTurn.timeout = s.timeout := htout'
  obtain ⟨hle, hi, hc⟩ := dropTurn_progress
    (w := cost (s.arp_absolute_time + 5) s.timeout (x.idle s.arp_absolute_time + 5))
    (fun _ _ h => h.cost_le) s.tick
  have hlt : (s.sync true routes).rank x <
      6 * (2 * s.tick.dropTurn.costs x + resumes s.tick.dropTurn.arpItem) +
        (5 - s.tick.dropTurn.curtime) := by
    refine rank_turns_lt (by rw [hsm]; exact htout) ?_ ?_ hy (by rw [hn, hsm]; exact hdue)
    · rw [hn, hsm, ht]
      omega
    · rw [hn, ht]
      omega
  have hcs : s.tick.dropTurn.costs x ≤ s.nextCosts x := by
    unfold costs nextCosts
    rw [hn, hsm, ht]
    exact hle
  rw [hi, hc] at hlt
  change _ < 6 * (2 * _ + resumes s.arpItem) + (5 - s.curtime) at hlt
  unfold rank at hlt ⊢
  omega

end

/-! ## Rounds -/

def rounds (routes : List UInt32) (n : ℕ) (s : ArpState p) : ArpState p :=
  (fun s => s.sync true routes)^[n] s

def Holds (x : ArpItem) : Prop := x.key ∈ s.tbl.items.map key

def Heirs (x : ArpItem) : Prop := ∀ y ∈ s.tbl.items, y.key = x.key → x.Heir y

theorem rounds_succ (routes : List UInt32) (n : ℕ) (s : ArpState p) :
    s.rounds routes (n + 1) = (s.sync true routes).rounds routes n :=
  Function.iterate_succ_apply _ n s

theorem holds_of_rounds (h : (s.rounds routes n).Holds x) : s.Holds x := by
  induction n generalizing s with
  | zero => exact h
  | succ n ih =>
    rw [rounds_succ] at h
    exact (s.ages_sync routes true).shrinks (ih h)

theorem Heirs.sync (h : s.Heirs x) (routes : List UInt32) : (s.sync true routes).Heirs x := by
  intro y' hy' hke
  obtain ⟨y, hy, hh⟩ := s.ages_sync routes true y' hy'
  exact (h y hy (hh.key_eq.symm.trans hke)).trans hh

theorem heirs_of_mem (hx : x ∈ s.tbl.items) : s.Heirs x := by
  intro y hy hke
  rw [OrderedTable.eq_of_key_eq hy hx hke]
  exact .refl x

theorem not_holds_rounds (Inv : ℕ → ArpState p → Prop) (μ : ArpState p → ℕ)
    (hi : ∀ n s, Inv (n + 1) s → Inv n (s.sync true routes))
    (hμ : ∀ n s, Inv (n + 1) s → (s.sync true routes).Holds x → μ (s.sync true routes) < μ s)
    (hs : Inv n s) (hn : μ s < n) : ¬ (s.rounds routes n).Holds x := by
  induction n generalizing s with
  | zero => exact absurd hn (Nat.not_lt_zero _)
  | succ n ih =>
    rw [rounds_succ]
    by_cases hh : (s.sync true routes).Holds x
    · have hlt := hμ n s hs hh
      exact ih (hi n s hs) (by omega)
    · exact fun h => hh (holds_of_rounds h)

theorem sync_clock (routes : List UInt32) :
    (s.sync true routes).arp_absolute_time = s.arp_absolute_time + 5 ∧
      (s.sync true routes).timeout = s.timeout := by
  obtain ⟨htime₁, htimeout₁⟩ := s.tick.dropTurn_clock
  obtain ⟨htime₂, htimeout₂⟩ := s.tick.dropTurn.continueTurn_clock routes
  obtain ⟨htime₃, htimeout₃⟩ := (s.tick.dropTurn.continueTurn routes).ageTurn_clock routes
  exact ⟨(htime₃.trans htime₂).trans htime₁, (htimeout₃.trans htimeout₂).trans htimeout₁⟩

/-- The entry has been idle for longer than the timeout, and its idle time does not come near the
end of its 32 bits in the next `n` turns. -/
structure Waits (n : ℕ) (s : ArpState p) (x : ArpItem) : Prop where
  heirs : s.Heirs x
  idle : s.timeout.toNat < x.idle s.arp_absolute_time
  clock : x.idle s.arp_absolute_time + 5 * n + 300 ≤ 2 ^ 32

theorem Waits.sync (h : Waits (n + 1) s x) (routes : List UInt32) :
    Waits n (s.sync true routes) x := by
  obtain ⟨htm, htout⟩ := s.sync_clock routes
  have hclk := h.clock
  have hidle := h.idle
  have ht : x.idle (s.sync true routes).arp_absolute_time = x.idle s.arp_absolute_time + 5 := by
    rw [htm, x.idle_tick]
    omega
  refine ⟨h.heirs.sync routes, ?_, ?_⟩
  · rw [ht, htout]
    omega
  · rw [ht]
    omega

theorem Waits.due (h : Waits (n + 1) s x) (hd : x.isStatic = 0)
    (hr : serPolicyPbFound routes x.ipAddr = false) (htout : 300 ≤ s.timeout.toNat) :
    x.Due (s.arp_absolute_time + 5) s.timeout routes := by
  have hidle := h.idle
  have hclk := h.clock
  have ht : x.idle (s.arp_absolute_time + 5) = x.idle s.arp_absolute_time + 5 := by
    rw [x.idle_tick]
    omega
  refine ⟨hd, hr, UInt32.lt_iff_toNat_lt.mpr ?_⟩
  rw [UInt32.toNat_sub_of_le s.timeout 300 (UInt32.le_iff_toNat_le.mpr htout)]
  change s.timeout.toNat - 300 < x.idle (s.arp_absolute_time + 5)
  omega

theorem not_holds_of_rank (h : Waits n s x) (hd : x.isStatic = 0)
    (hrt : serPolicyPbFound routes x.ipAddr = false) (htout : 300 ≤ s.timeout.toNat)
    (hr : s.rank x < n) : ¬ (s.rounds routes n).Holds x := by
  refine not_holds_rounds (fun n s => Waits n s x ∧ 300 ≤ s.timeout.toNat) (fun s => s.rank x)
    ?_ ?_ ⟨h, htout⟩ hr
  · rintro n s ⟨hwt, htout⟩
    refine ⟨hwt.sync routes, ?_⟩
    rw [(s.sync_clock routes).2]
    exact htout
  · rintro n s ⟨hwt, htout⟩ hhs
    obtain ⟨y, hy, hke⟩ := mem_map.mp hhs
    have hh : x.Heir y := hwt.heirs.sync routes y hy hke
    have hdue : y.Due (s.arp_absolute_time + 5) s.timeout routes :=
      hh.due_iff.mpr (hwt.due hd hrt htout)
    have hclk := hwt.clock
    exact rank_sync_lt htout hwt.idle (by omega) hy hdue

theorem rank_le (x : ArpItem) : s.rank x ≤ 744 * p.table_size + 11 := by
  have hcs : s.nextCosts x ≤ s.tbl.items.length * 62 := by
    refine (sum_le_card_nsmul _ 62 ?_).trans ?_
    · intro c hc
      obtain ⟨item, -, rfl⟩ := mem_map.mp hc
      exact cost_le _ _ _ item
    · rw [length_map, smul_eq_mul]
  have hlen := s.tbl.length_le
  have hr := resumes_le s.arpItem
  unfold rank
  omega

/-! ### Drop entries -/

def hitOf (x : ArpItem) : ℕ := if ∃ y ∈ s.tbl.items, y.key = x.key ∧ y.Hit then 1 else 0

theorem drop_sync_lt (hhe : s.Heirs x) (hd : x.isStatic = 0) (hdr : x.Drop)
    (hhs : (s.sync true routes).Holds x) :
    4 * (s.sync true routes).hitOf x + (3 - (s.sync true routes).dropCnt) <
      4 * s.hitOf x + (3 - s.dropCnt) := by
  have hdropCnt : (s.sync true routes).dropCnt = if s.dropCnt > 2 then 0 else s.dropCnt + 1 := by
    have hae : ((s.tick.dropTurn.continueTurn routes).ageTurn routes).dropCnt =
        s.tick.dropTurn.dropCnt := by
      unfold ageTurn continueTurn
      split_ifs <;> rfl
    refine hae.trans ?_
    unfold dropTurn npdArpAgeDropCnt
    split_ifs with hc hc' hc'
    · rfl
    · exact absurd hc hc'
    · exact absurd hc' hc
    · rfl
  -- The passes after the drop pass leave heirs.
  have hag : Ages s.tick.dropTurn.tbl (s.sync true routes).tbl :=
    (ages_continueTurn _ routes).trans (ages_ageTurn _ routes)
  rw [hdropCnt]
  by_cases hc : s.dropCnt > 2
  · have hi : s.tick.dropTurn.tbl.items =
        s.tbl.items.filterMap (aged s.tick.arp_absolute_time s.timeout arpsnpFlagDrop) := by
      unfold dropTurn
      rw [if_pos (show s.tick.dropCnt > npdArpAgeDropCnt from hc)]
      exact dropHandle_items s.tbl
    have hcl : ∀ y ∈ s.tick.dropTurn.tbl.items, y.key = x.key →
        ∃ y₀ ∈ s.tbl.items, y₀.key = x.key ∧ y₀.Hit ∧ y = y₀.clearHit := by
      intro y hy hke
      rw [hi, mem_filterMap] at hy
      obtain ⟨y₀, hy₀, ha⟩ := hy
      have hkey₀ : y₀.key = x.key := (heir_of_aged ha).key_eq.symm.trans hke
      have hh : x.Heir y₀ := hhe y₀ hy₀ hkey₀
      rw [aged_of_drop (hh.isStatic_eq.trans hd) (hh.drop_iff.mpr hdr)] at ha
      split_ifs at ha with hhi
      exact ⟨y₀, hy₀, hkey₀, hhi, (Option.some.inj ha).symm⟩
    have hb : s.hitOf x = 1 := by
      obtain ⟨y, hy, hke⟩ := mem_map.mp (hag.shrinks hhs)
      obtain ⟨y₀, hy₀, hkey₀, hhi, -⟩ := hcl y hy hke
      exact if_pos ⟨y₀, hy₀, hkey₀, hhi⟩
    have haf : (s.sync true routes).hitOf x = 0 := by
      refine if_neg ?_
      rintro ⟨y, hy, hke, hhi⟩
      obtain ⟨y₁, hy₁, hh⟩ := hag y hy
      obtain ⟨y₀, -, -, -, rfl⟩ := hcl y₁ hy₁ (hh.key_eq.symm.trans hke)
      exact y₀.not_hit_clearHit (hh.hit hhi)
    rw [if_pos hc]
    omega
  · have hhi : (s.sync true routes).hitOf x ≤ s.hitOf x := by
      unfold hitOf
      split_ifs with haf hb
      · exact le_rfl
      · obtain ⟨y, hy, hke, hhi⟩ := haf
        obtain ⟨y₀, hy₀, hh⟩ := s.ages_sync routes true y hy
        exact absurd ⟨y₀, hy₀, hh.key_eq.symm.trans hke, hh.hit hhi⟩ hb
      · exact Nat.zero_le _
      · exact le_rfl
    rw [if_neg hc]
    omega

theorem not_holds_of_drop (hh : s.Heirs x) (hd : x.isStatic = 0) (hdr : x.Drop)
    (hn : 8 ≤ n) : ¬ (s.rounds routes n).Holds x := by
  refine not_holds_rounds (fun _ s => s.Heirs x) (fun s => 4 * s.hitOf x + (3 - s.dropCnt))
    (fun _ s h => h.sync routes) (fun _ s h => drop_sync_lt h hd hdr) hh ?_
  have hhi : s.hitOf x ≤ 1 := by
    unfold hitOf
    split_ifs <;> omega
  omega

theorem mem_rounds (hx : x ∈ s.tbl.items) (hd : ¬ x.Drop)
    (hdue : ∀ k < n, ¬ x.Due (s.arp_absolute_time + 5 * ofNat (k + 1)) s.timeout routes) :
    x ∈ (s.rounds routes n).tbl.items := by
  induction n generalizing s with
  | zero => exact hx
  | succ n ih =>
    obtain ⟨ht, htout⟩ := s.sync_clock routes
    have hf : ¬ x.Due s.tick.arp_absolute_time s.timeout routes := hdue 0 (Nat.succ_pos n)
    rw [rounds_succ]
    refine ih (mem_sync (aged_of_not_drop hd) (if_neg hf) hx true) fun k hk => ?_
    have hn := hdue (k + 1) (by omega)
    have hclk : s.arp_absolute_time + 5 + 5 * ofNat (k + 1) =
        s.arp_absolute_time + 5 * ofNat (k + 1 + 1) := by
      rw [ofNat_add (k + 1) 1]
      grind
    rw [ht, htout, hclk]
    exact hn

theorem not_due_of_short {n k : ℕ} (hsh : s.timeout.toNat < 300)
    (hclk : x.idle s.arp_absolute_time + 5 * n + 300 ≤ 2 ^ 32) (hk : k < n) :
    ¬ x.Due (s.arp_absolute_time + 5 * UInt32.ofNat (k + 1)) s.timeout routes := by
  rintro ⟨-, -, hidle⟩
  have ht : s.arp_absolute_time + 5 * ofNat (k + 1) - x.time =
      s.arp_absolute_time - x.time + 5 * ofNat (k + 1) := by grind
  have hlt := lt_iff_toNat_lt.mp hidle
  have h300 : (300 : UInt32).toNat = 300 := rfl
  have h5 : (5 : UInt32).toNat = 5 := rfl
  rw [ht, UInt32.toNat_sub, UInt32.toNat_add, UInt32.toNat_mul, UInt32.toNat_ofNat', h300, h5] at hlt
  unfold idle at hclk
  omega

end ArpState

open ArpState

/-! ## The main result -/

theorem holds_ageHandle {s : ArpState p} {y : ArpItem} (routes : List UInt32) (hy : y ∈ s.tbl.items)
    (hd : y.isStatic = 0) (hdr : ¬ y.Drop)
    (hidle : y.idle s.arp_absolute_time ≤ s.timeout.toNat) : (s.ageHandle routes).Holds y := by
  have hsa : y.isStatic ≠ 1 := by rw [hd]; decide
  have hyo : ¬ s.arp_absolute_time - y.time > s.timeout := fun h =>
    absurd (lt_iff_toNat_lt.mp h) (Nat.not_lt.mpr hidle)
  obtain ⟨y', hv⟩ : ∃ y', y.visited s.arp_absolute_time s.timeout routes = some y' := by
    by_cases hdue : y.Due s.arp_absolute_time s.timeout routes
    · rw [visited, if_pos hdue, aged, if_neg hsa, if_neg fun h => hdr h.2,
        if_pos (by decide)]
      by_cases hh : y.Hit
      · exact ⟨_, if_neg (not_not.mpr hh)⟩
      · exact ⟨y, by rw [if_pos hh, if_neg hyo]⟩
    · exact ⟨y, if_neg hdue⟩
  rcases mem_ageHandle hv hy s.arpItem s.arp_aging_continue with hme | hme
  · exact mem_map_of_mem hme
  · rw [Holds, ← (heir_of_visited hv).key_eq]
    exact mem_map_of_mem hme

def agingRounds (p : ArpProduct) : ℕ := 744 * p.table_size + 12

/-- A dynamic entry that has been idle for longer than the timeout is gone after a number of turns
exactly when it is a drop entry, or the timeout is at least 300 seconds and no policy route is in
its bucket. Before the timeout a pass deletes no entry but drop entries. -/
theorem gone_iff (s : ArpState p) (routes : List UInt32) {x : ArpItem} (hx : x ∈ s.tbl.items)
    (hdynamic : x.isStatic = 0) (hidle : s.timeout.toNat < x.idle s.arp_absolute_time)
    (hclock : x.idle s.arp_absolute_time + 5 * agingRounds p + 300 ≤ 2 ^ 32) :
    ((∃ n ≤ agingRounds p, ¬ (s.rounds routes n).Holds x) ↔
      x.Drop ∨ (300 ≤ s.timeout.toNat ∧ serPolicyPbFound routes x.ipAddr = false)) ∧
    ∀ (s : ArpState p) (routes : List UInt32) (y : ArpItem), y ∈ s.tbl.items → y.isStatic = 0 →
      ¬ y.Drop → y.idle s.arp_absolute_time ≤ s.timeout.toNat → (s.ageHandle routes).Holds y := by
  refine ⟨⟨?_, ?_⟩, fun s routes y hy hdynamic hdrop => holds_ageHandle routes hy hdynamic hdrop⟩
  · rintro ⟨n, hn, hgone⟩
    by_contra hcond
    rw [not_or, not_and] at hcond
    obtain ⟨hdrop, hlong⟩ := hcond
    -- The entry is never due, so it stays.
    refine hgone (mem_map_of_mem (mem_rounds hx hdrop fun k hk hdue => ?_))
    rcases Nat.lt_or_ge s.timeout.toNat 300 with hshort | htimeout
    · exact not_due_of_short hshort hclock (hk.trans_le hn) hdue
    · exact hlong htimeout hdue.2.1
  · have hheirs := heirs_of_mem hx
    rintro (hdrop | ⟨htimeout, hroute⟩)
    · refine ⟨agingRounds p, le_rfl, not_holds_of_drop hheirs hdynamic hdrop ?_⟩
      unfold agingRounds
      omega
    · refine ⟨agingRounds p, le_rfl, not_holds_of_rank ⟨hheirs, hidle, hclock⟩ hdynamic
        hroute htimeout ?_⟩
      have hrank := s.rank_le x
      unfold agingRounds
      omega

def laptopArp : ArpReceived where
  netif_index := 0x20000003
  vid := 10
  isTagged := 0
  packet :=
    { ethSmac := .six 2 0 0 0 0 3
      ethDmac := .six 2 0 0 0 0 9
      opCode := 2
      smac := .six 2 0 0 0 0 3
      sip := 0x0A00000A
      dmac := .six 2 0 0 0 0 9
      dip := 0x0100000A }
  l3intf := some (7, ⟨[⟨0x0100000A, 0x00FFFFFF⟩], true, false⟩)
  learn_mode := 1
  inspection_status := false
  inspection_check := true

def laptopState (timeout : UInt32) : ArpState fourEntries :=
  (init fourEntries).run [.setAgetime timeout 1, .rxPacket quietArpEnv laptopArp]

def laptopItem : ArpItem := { laptopArp.dbItem 0 7 true with isValid := 0 }

theorem items_laptopState (timeout : UInt32) : (laptopState timeout).tbl.items = [laptopItem] := by rfl

/-- With the default timeout the entry is gone when there have been no packets for longer than
that. -/
theorem gone_laptop :
    ∃ n ≤ agingRounds fourEntries,
      ¬ (rounds [] n { laptopState 600 with arp_absolute_time := 1000 }).Holds laptopItem := by
  have hx : laptopItem ∈ ({ laptopState 600 with arp_absolute_time := 1000 } :
      ArpState fourEntries).tbl.items := by
    change laptopItem ∈ (laptopState 600).tbl.items
    rw [items_laptopState]
    exact mem_singleton_self _
  exact (gone_iff { laptopState 600 with arp_absolute_time := 1000 } [] hx rfl (by decide)
    (by decide)).1.mpr (.inr ⟨by decide, rfl⟩)

/-- With a timeout of 299 seconds it is never gone, though it is idle for longer. -/
theorem short_timeout_keeps :
    laptopItem ∈ (laptopState 299).tbl.items ∧ laptopItem.isStatic = 0 ∧ ¬ laptopItem.Drop ∧
      (laptopState 299).timeout = 299 ∧
      299 < laptopItem.idle ((laptopState 299).arp_absolute_time + 5 * ofNat 60) ∧
      ∀ n, ((laptopState 299).rounds [] n).Holds laptopItem := by
  have hx : laptopItem ∈ (laptopState 299).tbl.items := by
    rw [items_laptopState]
    exact mem_singleton_self _
  refine ⟨hx, rfl, by decide, rfl, by decide, fun n => ?_⟩
  refine mem_map_of_mem (mem_rounds hx (by decide) fun k _ hdue => ?_)
  -- The difference of 299 and 300 is the largest word, and no idle time is larger.
  have hlt := lt_iff_toNat_lt.mp hdue.2.2
  have hmax : ((laptopState 299).timeout - 300).toNat = 2 ^ 32 - 1 := rfl
  have hword := toNat_lt
    ((laptopState 299).arp_absolute_time + 5 * ofNat (k + 1) - laptopItem.time)
  omega

end Chanos.Arp

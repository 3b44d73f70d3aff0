import Chanos.Database.Operations
import Chanos.Lib.FreeList

/-!
# What a step does to a table

Every operation on a table, and every entry of a received message, writes nothing, or inserts,
rewrites or deletes one entry. `Effect` names which, and `CoreStep` says how the core of the table
changes then.
-/

namespace Chanos.Database

open Lib Option Core Function Finset Bool

variable {σ : Schema}

inductive Effect (n : ℕ)
  | none
  | insert (entry_id : ℕ) (data : Bytes n)
  | update (entry_id : ℕ) (data : Bytes n)
  | delete (entry_id : ℕ)

def Effect.apply {n : ℕ} (get : ℕ → Option (Bytes n)) : Effect n → ℕ → Option (Bytes n)
  | .none => get
  | .insert entry_id data => Function.update get entry_id (some data)
  | .update entry_id data => Function.update get entry_id (some data)
  | .delete entry_id => Function.update get entry_id Option.none

def Effect.Valid {n : ℕ} (entry_num : ℕ) (get : ℕ → Option (Bytes n)) : Effect n → Prop
  | .none => True
  | .insert entry_id _ => entry_id < entry_num ∧ get entry_id = Option.none
  | .update entry_id _ => (get entry_id).isSome = true
  | .delete entry_id => (get entry_id).isSome = true

inductive Linked (c : Core σ) (entry_id : ℕ) : Option (ℕ × ℕ) → Option ℕ → Core σ → Prop
  | off {orig_index : Option ℕ} (h : ∀ i, orig_index = some i → σ.index_list[i]? = some .array) :
    Linked c entry_id none orig_index c
  | on {i b : ℕ} {l : List ℕ} (h : AddedTo entry_id (c.chains i b) l) :
    Linked c entry_id (some (i, b)) (some i) (c.setChain i b l)

inductive Unlinked (c : Core σ) (entry_id : ℕ) : Option ℕ → Core σ → Prop
  | off {orig_index : Option ℕ} (h : ∀ i, orig_index = some i → σ.index_list[i]? = some .array) :
    Unlinked c entry_id orig_index c
  | on {i b : ℕ} {l : List ℕ} (h : AddedTo entry_id l (c.chains i b)) :
    Unlinked c entry_id (some i) (c.setChain i b l)

inductive CoreStep (c : Core σ) : Option (ℕ × ℕ) → Effect σ.entry_size → Core σ → Prop
  | skip {site : Option (ℕ × ℕ)} : CoreStep c site .none c
  | dropNode {site : Option (ℕ × ℕ)} {i b entry_id : ℕ} {l : List ℕ}
      (hget : dbTableGetEntry c entry_id = none) (hl : AddedTo entry_id l (c.chains i b)) :
    CoreStep c site .none (c.setChain i b l)
  | insert {site : Option (ℕ × ℕ)} {orig_index : Option ℕ} {entry_id : ℕ} {data : σ.Data}
      {c₁ : Core σ} (malloc : MallocSite → σ.Data) (hfr : entry_id ∈ c.entry_alloc_list)
      (hlk : Linked c entry_id site orig_index c₁) :
    CoreStep c site (.insert entry_id data)
      ((c₁.take entry_id).insertEntry malloc entry_id data orig_index)
  | update {site : Option (ℕ × ℕ)} {orig_index : Option ℕ} {entry_id : ℕ} {old data : σ.Data}
      (malloc : MallocSite → σ.Data) (hget : dbTableGetEntry c entry_id = some old)
      (horig : ∀ i ix, orig_index = some i → σ.index_list[i]? = some ix →
        ix = .array ∨ ix.cmp data old = true) :
    CoreStep c site (.update entry_id data) (c.updateEntry malloc entry_id old data orig_index)
  | delete {site : Option (ℕ × ℕ)} {orig_index : Option ℕ} {entry_id : ℕ} {old : σ.Data}
      {c₁ : Core σ} (malloc : MallocSite → σ.Data) (hget : dbTableGetEntry c entry_id = some old)
      (hunl : Unlinked c entry_id orig_index c₁) :
    CoreStep c site (.delete entry_id)
      ((c₁.freeEntryIndex malloc entry_id orig_index).deleteEntry entry_id)

/-! ## Occupancy -/

/-- The free list has exactly the ids without an entry, and the counters are right. -/
structure Occupancy (c : Core σ) : Prop where
  free : FreeList (range σ.entry_num) (fun id => (c.entries id).exist = true)
    c.entry_alloc_list
  exist_lt : ∀ id, (c.entries id).exist = true → id < σ.entry_num
  real_data : ∀ id, (c.entries id).real_data.isSome = (c.entries id).exist
  use_num : c.entry_use_num.toNat + c.entry_alloc_list.length = σ.entry_num
  not_held : ∀ id, (c.entries id).delete_not_synced = false

theorem occupancy_create (σ : Schema) : Occupancy (create σ) where
  free := by
    have hli : (create σ).entry_alloc_list = List.range σ.entry_num :=
      entryAllocListInit_eq _
    refine ⟨?_, fun id => ?_⟩
    · rw [hli, List.sortedLT_iff_pairwise]
      exact List.pairwise_lt_range
    · rw [hli, List.mem_range, mem_range]
      exact ⟨fun h => ⟨h, false_ne_true⟩, fun h => h.1⟩
  exist_lt := fun _ h => absurd h false_ne_true
  real_data := fun _ => rfl
  use_num := by
    change 0 + (osalTableEntryAllocListInit σ.entry_num).length = σ.entry_num
    rw [entryAllocListInit_eq, List.length_range, Nat.zero_add]
  not_held := fun _ => rfl

namespace Occupancy

variable {c c' : Core σ} {entry_id : ℕ} {old data : σ.Data}

section

variable (h : Occupancy c)
include h

theorem congr (he : c'.entries = c.entries) (hl : c'.entry_alloc_list = c.entry_alloc_list)
    (hu : c'.entry_use_num = c.entry_use_num) : Occupancy c' := by
  obtain ⟨entries, alloc, use, chains⟩ := c'
  subst he hl hu
  exact ⟨h.free, h.exist_lt, h.real_data, h.use_num, h.not_held⟩

theorem get_eq (id : ℕ) : dbTableGetEntry c id = (c.entries id).real_data := by
  have hd := h.real_data id
  unfold dbTableGetEntry
  split_ifs with hid hex
  · have hne : (c.entries id).exist ≠ true := fun hex => by
      have := h.exist_lt id hex
      omega
    rw [eq_false_iff.mpr hne, isSome_eq_false_iff, isNone_iff_eq_none] at hd
    exact hd.symm
  · rfl
  · rw [eq_false_iff.mpr hex, isSome_eq_false_iff, isNone_iff_eq_none] at hd
    exact hd.symm

theorem isSome_get (id : ℕ) : (dbTableGetEntry c id).isSome = (c.entries id).exist := by
  rw [h.get_eq, h.real_data]

theorem exist_of_get (hg : dbTableGetEntry c entry_id = some old) :
    (c.entries entry_id).exist = true := by
  rw [← h.isSome_get, hg, isSome_some]

theorem lt_of_get (hg : dbTableGetEntry c entry_id = some old) : entry_id < σ.entry_num :=
  h.exist_lt _ (h.exist_of_get hg)

theorem mem_free :
    entry_id ∈ c.entry_alloc_list ↔ entry_id < σ.entry_num ∧ dbTableGetEntry c entry_id = none := by
  rw [h.free.mem_iff, mem_range, ← h.isSome_get, not_eq_true,
    isSome_eq_false_iff, isNone_iff_eq_none]

theorem use_num_eq_card :
    c.entry_use_num.toNat =
      ((range σ.entry_num).filter fun id => (c.entries id).exist = true).card := by
  have hc := h.free.length_add_card
  have hu := h.use_num
  rw [card_range] at hc
  omega

end

theorem set (h : Occupancy c) {e : DbEntry σ.entry_size} (hlt : entry_id < σ.entry_num)
    (he : c'.entries = Function.update c.entries entry_id e)
    (hd : e.real_data.isSome = e.exist) (hh : e.delete_not_synced = false)
    (hfr : FreeList (range σ.entry_num) (fun id => (c'.entries id).exist = true)
      c'.entry_alloc_list)
    (hu : c'.entry_use_num.toNat + c'.entry_alloc_list.length = σ.entry_num) : Occupancy c' := by
  have hc : ∀ id, c'.entries id = if id = entry_id then e else c.entries id := by
    intro id
    rw [he, update_apply]
  refine ⟨hfr, fun id hex => ?_, fun id => ?_, hu, fun id => ?_⟩
  · rw [hc] at hex
    split_ifs at hex with hid
    · rwa [hid]
    · exact h.exist_lt id hex
  · rw [hc]
    split_ifs
    · exact hd
    · exact h.real_data id
  · rw [hc]
    split_ifs
    · exact hh
    · exact h.not_held id

theorem insertEntry (h : Occupancy c) (malloc : MallocSite → σ.Data)
    (hid : entry_id ∈ c.entry_alloc_list) (data : σ.Data) (orig_index : Option ℕ) :
    Occupancy ((c.take entry_id).insertEntry malloc entry_id data orig_index) := by
  have he := insertEntry_entries (c.take entry_id) malloc entry_id data orig_index
  obtain ⟨hlt, -⟩ := h.mem_free.mp hid
  refine h.set hlt he rfl (h.not_held entry_id) ?_ ?_
  · rw [he, Core.insertEntry, Core.forEachIndex_entry_alloc_list]
    refine (h.free.erase entry_id).congr fun id _ => ?_
    rw [update_apply]
    split_ifs with hid'
    · simp [hid']
    · simp [hid', take]
  · have hN := σ.entry_num_lt
    have hlen : 0 < c.entry_alloc_list.length := List.length_pos_of_mem hid
    have hu := h.use_num
    rw [Core.insertEntry, Core.forEachIndex_entry_alloc_list, Core.forEachIndex_entry_use_num]
    change (c.entry_use_num + 1).toNat + (c.entry_alloc_list.erase entry_id).length = σ.entry_num
    rw [List.length_erase_of_mem hid, UInt32.toNat_add, UInt32.toNat_one,
      Nat.mod_eq_of_lt (by omega)]
    omega

theorem updateEntry (h : Occupancy c) (malloc : MallocSite → σ.Data)
    (hg : dbTableGetEntry c entry_id = some old) (data : σ.Data) (orig_index : Option ℕ) :
    Occupancy (c.updateEntry malloc entry_id old data orig_index) := by
  have he := updateEntry_entries c malloc entry_id old data orig_index
  have hex := h.exist_of_get hg
  refine h.set (h.lt_of_get hg) he hex.symm (h.not_held entry_id) ?_ ?_
  · rw [he, Core.updateEntry, Core.forEachIndex_entry_alloc_list]
    change FreeList _ _ (entry_alloc_list (c.forEachIndex _ _))
    rw [Core.forEachIndex_entry_alloc_list]
    refine h.free.congr fun id _ => ?_
    rw [update_apply]
    split_ifs with hid'
    · rw [hid']
    · rfl
  · have hu := h.use_num
    simpa [Core.updateEntry] using hu

theorem deleteEntry (h : Occupancy c) (hg : dbTableGetEntry c entry_id = some old) :
    Occupancy (c.deleteEntry entry_id) := by
  have hlt := h.lt_of_get hg
  have hex := h.exist_of_get hg
  have hfr := h.free.insert (mem_range.mpr hlt) hex
  have hd : c.deleteEntry entry_id = dbTableInternalFreeOrder
      { c with
        entries := Function.update c.entries entry_id
          { c.entries entry_id with exist := false, real_data := none } } entry_id := by
    rw [Core.deleteEntry, if_neg (by rw [h.not_held]; exact false_ne_true)]
  rw [hd]
  refine h.set hlt rfl rfl (h.not_held entry_id) ?_ ?_
  · refine hfr.congr fun id _ => ?_
    change _ ↔ (Function.update c.entries entry_id _ id).exist = true
    rw [update_apply]
    split_ifs with hid'
    · simp [hid']
    · simp [hid']
  · have hus := h.use_num
    have hu : 0 < c.entry_use_num.toNat := by
      rw [h.use_num_eq_card, card_pos]
      exact ⟨entry_id, mem_filter.mpr ⟨mem_range.mpr hlt, hex⟩⟩
    have ho : (1 : UInt32) ≤ c.entry_use_num := by
      rw [UInt32.le_iff_toNat_le]
      exact hu
    change (c.entry_use_num - 1).toNat + (c.entry_alloc_list.orderedInsert (· < ·) entry_id).length
      = σ.entry_num
    rw [List.orderedInsert_length, UInt32.toNat_sub_of_le _ _ ho, UInt32.toNat_one]
    omega

end Occupancy

/-! ## Steps -/

section

variable {c c₁ : Core σ} {entry_id : ℕ} {orig_index : Option ℕ}

theorem Linked.store {site : Option (ℕ × ℕ)}
    (h : Linked c entry_id site orig_index c₁) : c₁.SameStore c := by
  cases h <;> exact ⟨rfl, rfl, rfl⟩

theorem Unlinked.store
    (h : Unlinked c entry_id orig_index c₁) : c₁.SameStore c := by
  cases h <;> exact ⟨rfl, rfl, rfl⟩

end

namespace CoreStep

variable {c c' : Core σ} {site : Option (ℕ × ℕ)} {eff : Effect σ.entry_size}

section

variable (hs : CoreStep c site eff c') (h : Occupancy c)
include hs h

theorem occupancy : Occupancy c' := by
  cases hs with
  | skip => exact h
  | dropNode => exact h.congr rfl rfl rfl
  | insert malloc hfr hlk =>
    obtain ⟨he, hl, hu⟩ := hlk.store
    exact (h.congr he hl hu).insertEntry malloc (by rwa [hl]) _ _
  | update malloc hget => exact h.updateEntry malloc hget _ _
  | @delete orig_index entry_id old c₁ malloc hget hunl =>
    obtain ⟨he, hl, hu⟩ := hunl.store
    obtain ⟨he', hl', hu'⟩ := freeEntryIndex_store c₁ malloc entry_id orig_index
    refine (h.congr (he'.trans he) (hl'.trans hl) (hu'.trans hu)).deleteEntry (?_ : _ = some old)
    rw [getEntry_congr (he'.trans he), hget]

theorem get_eq : dbTableGetEntry c' = eff.apply (dbTableGetEntry c) := by
  have h' := hs.occupancy h
  -- Under occupancy reading is the data pointer, and each step writes one of them.
  have hrd : ∀ (id entry_id : ℕ) (e : DbEntry σ.entry_size),
      c'.entries = Function.update c.entries entry_id e →
        dbTableGetEntry c' id = if id = entry_id then e.real_data else dbTableGetEntry c id := by
    intro id entry_id e he
    rw [h'.get_eq, he, update_apply]
    split_ifs
    · rfl
    · rw [h.get_eq]
  funext id
  cases hs with
  | skip => rfl
  | dropNode => exact congrFun (getEntry_congr rfl) id
  | @insert orig_index entry_id data c₁ malloc hfr hlk =>
    rw [hrd id entry_id _ (by rw [insertEntry_entries]; rw [← hlk.store.1]; rfl),
      Effect.apply, update_apply]
  | @update orig_index entry_id old data malloc hget horig =>
    rw [hrd id entry_id _ (by rw [updateEntry_entries]), Effect.apply, update_apply]
  | @delete orig_index entry_id old c₁ malloc hget hunl =>
    have he := (freeEntryIndex_store c₁ malloc entry_id orig_index).1.trans hunl.store.1
    rw [hrd id entry_id
        { c.entries entry_id with exist := false, real_data := none } ?_,
      Effect.apply, update_apply]
    rw [Core.deleteEntry, he, if_neg (by rw [h.not_held]; exact false_ne_true)]
    rfl

theorem effect_valid : eff.Valid σ.entry_num (dbTableGetEntry c) := by
  cases hs with
  | skip => trivial
  | dropNode => trivial
  | insert malloc hfr hlk => exact h.mem_free.mp hfr
  | update malloc hget | delete malloc hget => rw [Effect.Valid, hget, isSome_some]

end

end CoreStep

end Chanos.Database

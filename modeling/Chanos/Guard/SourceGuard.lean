import Chanos.Lib.BoundedMap
import Chanos.Lib.Bytes
import Chanos.Lib.Trace

/-!
# The rules of the source guard

The table of `npd_ip_source_guard.c`: which address may send from which port. An entry is static or
dynamic, and has a number from the pool of its kind that names its access list. Two functions give
numbers back wrongly, and a run is in order up to their first call that does (`indexesExact_along`).
-/

namespace Chanos.Guard

open Lib Option Finset BoundedMap Function

inductive SgType
  | static
  | dynamic
  deriving DecidableEq

def npdSgEntryNum : ℕ := 256

def npdSgDynamicEntryOffset : ℕ := 256

def npdSgMaxTableSize : ℕ := 512

structure SgEntry where
  ifIndex : UInt32
  mac : Bytes 6
  vid : UInt16
  sg_index : ℕ
  is_static : SgType
  deriving DecidableEq

/-- The table, and the numbers that are taken in `npd_sg_static_index` and
`npd_sg_dynamic_index`. -/
structure SgState where
  tbl : BoundedMap UInt32 SgEntry npdSgMaxTableSize
  pool : SgType → Finset ℕ

open SgState

structure NamIndex where
  alloc : Finset ℕ → Option ℕ
  alloc_lt : ∀ {pool n}, alloc pool = some n → n < npdSgEntryNum + 1
  alloc_notMem : ∀ {pool n}, alloc pool = some n → n ∉ pool

inductive IpsgReturn
  | success
  | error
  | overMax
  | notExist
  deriving DecidableEq

def SgType.offset : SgType → ℕ
  | .static => 0
  | .dynamic => npdSgDynamicEntryOffset

namespace SgState

variable (nam : NamIndex) (s : SgState)

def setPool (type : SgType) (pool : Finset ℕ) : SgState :=
  { s with pool := update s.pool type pool }

def allocIndex (type : SgType) : Option (SgState × ℕ) :=
  (nam.alloc (s.pool type)).map fun index =>
    (s.setPool type (insert index (s.pool type)), index + type.offset)

def npdSgFreeStaticIndex (sg_index : ℕ) : SgState :=
  s.setPool .dynamic ((s.pool .dynamic).erase sg_index)

def npdSgFreeDynamicIndex (sg_index : ℕ) : SgState :=
  s.setPool .dynamic ((s.pool .dynamic).erase (sg_index - npdSgDynamicEntryOffset))

def addNew (ipno : UInt32) (item : SgEntry) : SgState × IpsgReturn :=
  match s.allocIndex nam item.is_static with
  | none => (s, .overMax)
  | some (s, sg_index) =>
    ({ s with tbl := s.tbl.put ipno { item with sg_index } },
      if s.tbl.HasRoom ipno then .success else .error)

def npdSourceGuardEntryAdd (ipno : UInt32) (item : SgEntry) : SgState × IpsgReturn :=
  match s.tbl.lookup ipno with
  | some original =>
    -- A static entry is not touched by a dynamic one.
    if item.is_static = .dynamic ∧ original.is_static = .static then (s, .success)
    else if item.is_static = original.is_static then
      ({ s with tbl := s.tbl.put ipno { item with sg_index := original.sg_index } }, .success)
    else
      let s := s.npdSgFreeDynamicIndex original.sg_index
      let s := { s with tbl := s.tbl.erase ipno }
      s.addNew nam ipno item
  | none => s.addNew nam ipno item

def npdSourceGuardEntryDel (ipno eth_g_index : UInt32) (sg_type : SgType) : SgState × IpsgReturn :=
  match s.tbl.lookup ipno with
  | some item =>
    if item.ifIndex ≠ eth_g_index then (s, .notExist)
    else if sg_type = .dynamic ∧ item.is_static = .static then (s, .success)
    else
      let s :=
        if item.is_static = .dynamic then s.npdSgFreeDynamicIndex item.sg_index
        else s.npdSgFreeStaticIndex item.sg_index
      ({ s with tbl := s.tbl.erase ipno }, .success)
  | none => (s, .notExist)

def npdSgEntryDestroyByIfindex (netif_index : UInt32) (type : SgType) : SgState :=
  { s with tbl := s.tbl.filter fun _ item =>
      !(netif_index = item.ifIndex ∧ type = item.is_static : Bool) }

def npdIpSourceGuardInit : SgState where
  tbl := .empty
  pool _ := {0}

end SgState

inductive SgCall
  | add (ipno : UInt32) (item : SgEntry)
  | del (ipno eth_g_index : UInt32) (sg_type : SgType)
  | destroy (netif_index : UInt32) (type : SgType)

open SgCall

def SgCall.run (nam : NamIndex) (s : SgState) : SgCall → SgState
  | add ipno item => (s.npdSourceGuardEntryAdd nam ipno item).1
  | del ipno eth_g_index sg_type => (s.npdSourceGuardEntryDel ipno eth_g_index sg_type).1
  | destroy netif_index type => s.npdSgEntryDestroyByIfindex netif_index type

def SgStep (s : SgState) (call : SgCall) (s' : SgState) : Prop := ∃ nam, s' = call.run nam s

/-! ## Numbers in order -/

/-- The numbers are in order: each live entry has a number that is taken in the pool of its kind, no
two have the same `sg_index`, and no other number is taken but the first. -/
structure IndexesExact (s : SgState) : Prop where
  taken : ∀ ip item, s.tbl.lookup ip = some item →
    ∃ n ∈ s.pool item.is_static, item.sg_index = n + item.is_static.offset
  distinct : ∀ ip ip' item item', s.tbl.lookup ip = some item → s.tbl.lookup ip' = some item' →
    item.sg_index = item'.sg_index → ip = ip'
  only : ∀ type, ∀ n ∈ s.pool type, n = 0 ∨
    ∃ ip item, s.tbl.lookup ip = some item ∧ item.is_static = type ∧
      item.sg_index = n + type.offset

/-- The invariant that keeps them in order: the first number stays taken and is no entry's, and the
numbers are those of the pools. -/
structure SgInvariant (s : SgState) : Prop extends IndexesExact s where
  reserved : ∀ type, 0 ∈ s.pool type
  lt : ∀ type, ∀ n ∈ s.pool type, n < npdSgEntryNum + 1
  ne : ∀ ip item, s.tbl.lookup ip = some item → item.sg_index ≠ item.is_static.offset

/-- The condition for a call: no static entry is deleted as one, and no entry is destroyed with its
port. -/
def SgCall.Keeps (s : SgState) : SgCall → Prop
  | add _ _ => True
  | del ipno eth_g_index sg_type => ∀ item, s.tbl.lookup ipno = some item →
      item.ifIndex = eth_g_index → sg_type = .static → item.is_static = .dynamic
  | destroy netif_index type => ∀ ip item, s.tbl.lookup ip = some item →
      item.ifIndex = netif_index → item.is_static ≠ type

theorem SgType.add_offset_inj {type type' : SgType} {n n' : ℕ} (hn : n ≠ 0) (hn' : n' ≠ 0)
    (hlt : n < npdSgEntryNum + 1) (hlt' : n' < npdSgEntryNum + 1)
    (h : n + type.offset = n' + type'.offset) : type = type' ∧ n = n' := by
  cases type <;> cases type' <;>
    simp only [offset, npdSgDynamicEntryOffset, npdSgEntryNum] at h hlt hlt' <;>
    first
      | exact ⟨rfl, by omega⟩
      | omega

theorem SgType.add_offset_mem {n : ℕ} (hn : n ≠ 0) (hlt : n < npdSgEntryNum + 1) (type : SgType) :
    n + type.offset ∈ Finset.Icc 1 npdSgMaxTableSize := by
  rw [mem_Icc]
  rw [npdSgEntryNum] at hlt
  cases type
  · simp only [offset, npdSgMaxTableSize]
    omega
  · simp only [offset, npdSgMaxTableSize, npdSgDynamicEntryOffset]
    omega

section

variable {nam : NamIndex} {s : SgState} {ip : UInt32} {item : SgEntry}

namespace SgInvariant

section

variable (h : SgInvariant s)
include h

theorem exists_number (hit : s.tbl.lookup ip = some item) :
    ∃ n ∈ s.pool item.is_static, n ≠ 0 ∧ n < npdSgEntryNum + 1 ∧
      item.sg_index = n + item.is_static.offset := by
  obtain ⟨n, hn, heq⟩ := h.taken ip item hit
  refine ⟨n, hn, fun hz => h.ne ip item hit ?_, h.lt _ n hn, heq⟩
  rw [heq, hz, Nat.zero_add]

section

variable {type : SgType} {n : ℕ} (halc : nam.alloc (s.pool type) = some n)
include halc

theorem index_ne (hit : s.tbl.lookup ip = some item) :
    item.sg_index ≠ n + type.offset := by
  have hn : n ≠ 0 := fun hz => nam.alloc_notMem halc (hz ▸ h.reserved type)
  obtain ⟨m, hm, hm0, hml, heq⟩ := h.exists_number hit
  intro hsm
  obtain ⟨ht, rfl⟩ :=
    SgType.add_offset_inj hm0 hn hml (nam.alloc_lt halc) (heq.symm.trans hsm)
  rw [ht] at hm
  exact nam.alloc_notMem halc hm

theorem card_lt : s.tbl.keys.card < npdSgMaxTableSize := by
  have hn : n ≠ 0 := fun hz => nam.alloc_notMem halc (hz ▸ h.reserved type)
  have hme := SgType.add_offset_mem hn (nam.alloc_lt halc) type
  -- The numbers of the entries are different, and the one for the new entry is not among them.
  have hc : s.tbl.keys.card ≤ ((Finset.Icc 1 npdSgMaxTableSize).erase (n + type.offset)).card := by
    refine card_le_card_of_injOn (fun ip => ((s.tbl.lookup ip).map SgEntry.sg_index).getD 0) ?_ ?_
    · intro ip hip
      obtain ⟨item, hit⟩ := isSome_iff_exists.mp ((s.tbl.mem_keys ip).mp hip)
      obtain ⟨m, -, hm0, hml, heq⟩ := h.exists_number hit
      simp only [hit, map_some, getD_some, coe_erase]
      refine ⟨?_, h.index_ne halc hit⟩
      rw [heq]
      exact SgType.add_offset_mem hm0 hml _
    · intro ip hip ip' hip' hsm
      obtain ⟨item, hit⟩ := isSome_iff_exists.mp ((s.tbl.mem_keys ip).mp hip)
      obtain ⟨item', hit'⟩ := isSome_iff_exists.mp ((s.tbl.mem_keys ip').mp hip')
      simp only [hit, hit', map_some, getD_some] at hsm
      exact h.distinct ip ip' item item' hit hit' hsm
  rw [card_erase_of_mem hme, Nat.card_Icc] at hc
  have hsz : npdSgMaxTableSize = 512 := rfl
  omega

end

theorem set {original : SgEntry} (horig : s.tbl.lookup ip = some original)
    (hty : item.is_static = original.is_static) (hid : item.sg_index = original.sg_index) :
    SgInvariant { s with tbl := s.tbl.put ip item } := by
  have hr : s.tbl.HasRoom ip := .inl (mem_keys_of_lookup horig)
  -- Every entry has the kind and the number of one that was there.
  have ho : ∀ {ip' item'}, (s.tbl.put ip item).lookup ip' = some item' →
      ∃ before, s.tbl.lookup ip' = some before ∧ item'.is_static = before.is_static ∧
        item'.sg_index = before.sg_index := by
    intro ip' item' hit'
    rw [lookup_put hr] at hit'
    split_ifs at hit' with hip
    · cases hit'
      rw [hip]
      exact ⟨original, horig, hty, hid⟩
    · exact ⟨item', hit', rfl, rfl⟩
  refine { taken := ?_, distinct := ?_, only := ?_, reserved := h.reserved, lt := h.lt, ne := ?_ }
  · intro ip' item' hit'
    obtain ⟨before, hb, ht, hi⟩ := ho hit'
    rw [ht, hi]
    exact h.taken ip' before hb
  · intro ip₁ ip₂ item₁ item₂ h₁ h₂ hsm
    obtain ⟨before₁, hbefore₁, -, hi₁⟩ := ho h₁
    obtain ⟨before₂, hbefore₂, -, hi₂⟩ := ho h₂
    exact h.distinct ip₁ ip₂ before₁ before₂ hbefore₁ hbefore₂ (by rw [← hi₁, ← hi₂, hsm])
  · intro type n hn
    refine (h.only type n hn).imp id ?_
    rintro ⟨ip', item', hit', ht, hi⟩
    by_cases hip : ip' = ip
    · subst hip
      obtain rfl := mem_unique horig hit'
      refine ⟨ip', item, ?_, hty.trans ht, hid.trans hi⟩
      rw [lookup_put hr, if_pos rfl]
    · refine ⟨ip', item', ?_, ht, hi⟩
      rw [lookup_put hr, if_neg hip, hit']
  · intro ip' item' hit'
    obtain ⟨before, hb, ht, hi⟩ := ho hit'
    rw [ht, hi]
    exact h.ne ip' before hb

theorem remove (hit : s.tbl.lookup ip = some item) :
    SgInvariant { s.setPool item.is_static ((s.pool item.is_static).erase
      (item.sg_index - item.is_static.offset)) with tbl := s.tbl.erase ip } := by
  obtain ⟨n, hn, hn0, hnl, heq⟩ := h.exists_number hit
  rw [heq, Nat.add_sub_cancel]
  have hp (type : SgType) (m : ℕ) : m ∈ (update s.pool item.is_static
      ((s.pool item.is_static).erase n)) type ↔
        m ∈ s.pool type ∧ ¬(type = item.is_static ∧ m = n) := by
    rw [update_apply]
    split_ifs with hty
    · subst hty
      rw [mem_erase]
      tauto
    · tauto
  have ho : ∀ {ip' item'}, (s.tbl.erase ip).lookup ip' = some item' →
      ip' ≠ ip ∧ s.tbl.lookup ip' = some item' := by
    intro ip' item' hit'
    rw [lookup_erase] at hit'
    split_ifs at hit' with hip
    exact ⟨hip, hit'⟩
  refine { taken := ?_, distinct := ?_, only := ?_, reserved := ?_, lt := ?_, ne := ?_ }
  · intro ip' item' hit'
    obtain ⟨hne, hb⟩ := ho hit'
    obtain ⟨m, hm, heq'⟩ := h.taken ip' item' hb
    refine ⟨m, (hp _ _).mpr ⟨hm, ?_⟩, heq'⟩
    rintro ⟨hty, rfl⟩
    exact hne (h.distinct ip' ip item' item hb hit (by rw [heq', heq, hty]))
  · intro ip₁ ip₂ item₁ item₂ h₁ h₂
    exact h.distinct ip₁ ip₂ item₁ item₂ (ho h₁).2 (ho h₂).2
  · intro type m hm
    obtain ⟨hm, hnt⟩ := (hp type m).mp hm
    refine (h.only type m hm).imp id ?_
    rintro ⟨ip', item', hit', ht, hi⟩
    refine ⟨ip', item', ?_, ht, hi⟩
    have hip : ip' ≠ ip := by
      rintro rfl
      obtain rfl := mem_unique hit hit'
      refine hnt ⟨ht.symm, ?_⟩
      rw [heq, ht] at hi
      omega
    rw [lookup_erase, if_neg hip, hit']
  · intro type
    exact (hp type 0).mpr ⟨h.reserved type, fun hz => hn0 hz.2.symm⟩
  · intro type m hm
    exact h.lt type m ((hp type m).mp hm).1
  · intro ip' item' hit'
    exact h.ne ip' item' (ho hit').2

theorem addNew (hno : s.tbl.lookup ip = none) :
    SgInvariant (s.addNew nam ip item).1 := by
  rw [SgState.addNew, SgState.allocIndex]
  cases halc : nam.alloc (s.pool item.is_static) with
  | none => exact h
  | some n =>
    have hn0 : n ≠ 0 := fun hz => nam.alloc_notMem halc (hz ▸ h.reserved _)
    have hr : s.tbl.HasRoom ip := .inr (h.card_lt halc)
    have hp (type : SgType) (m : ℕ) : m ∈ (update s.pool item.is_static
        (insert n (s.pool item.is_static))) type ↔
          m ∈ s.pool type ∨ (type = item.is_static ∧ m = n) := by
      rw [update_apply]
      split_ifs with hty
      · subst hty
        rw [mem_insert]
        tauto
      · tauto
    have hn : ∀ {ip' item'}, (s.tbl.put ip { item with
        sg_index := n + item.is_static.offset }).lookup ip' = some item' →
        (ip' = ip ∧ item' = { item with sg_index := n + item.is_static.offset }) ∨
          s.tbl.lookup ip' = some item' := by
      intro ip' item' hit'
      rw [lookup_put hr] at hit'
      split_ifs at hit' with hip
      · exact .inl ⟨hip, (some.inj hit').symm⟩
      · exact .inr hit'
    refine { taken := ?_, distinct := ?_, only := ?_, reserved := ?_, lt := ?_, ne := ?_ }
    · intro ip' item' hit'
      rcases hn hit' with ⟨-, rfl⟩ | hb
      · exact ⟨n, (hp _ _).mpr (.inr ⟨rfl, rfl⟩), rfl⟩
      · obtain ⟨m, hm, heq⟩ := h.taken ip' item' hb
        exact ⟨m, (hp _ _).mpr (.inl hm), heq⟩
    · intro ip₁ ip₂ item₁ item₂ h₁ h₂ hsm
      rcases hn h₁ with ⟨rfl, rfl⟩ | hbefore₁ <;> rcases hn h₂ with ⟨rfl, rfl⟩ | hbefore₂
      · rfl
      · exact absurd hsm.symm (h.index_ne halc hbefore₂)
      · exact absurd hsm (h.index_ne halc hbefore₁)
      · exact h.distinct ip₁ ip₂ item₁ item₂ hbefore₁ hbefore₂ hsm
    · intro type m hm
      rcases (hp type m).mp hm with hm | ⟨rfl, rfl⟩
      · refine (h.only type m hm).imp id ?_
        rintro ⟨ip', item', hit', ht, hi⟩
        refine ⟨ip', item', ?_, ht, hi⟩
        have hip : ip' ≠ ip := by
          rintro rfl
          nomatch hno.symm.trans hit'
        show (s.tbl.put ip _).lookup ip' = _
        rw [lookup_put hr, if_neg hip, hit']
      · refine .inr ⟨ip, { item with sg_index := m + item.is_static.offset }, ?_, rfl, rfl⟩
        show (s.tbl.put ip _).lookup ip = _
        rw [lookup_put hr, if_pos rfl]
    · intro type
      exact (hp type 0).mpr (.inl (h.reserved type))
    · intro type m hm
      rcases (hp type m).mp hm with hm | ⟨-, rfl⟩
      · exact h.lt type m hm
      · exact nam.alloc_lt halc
    · intro ip' item' hit'
      rcases hn hit' with ⟨-, rfl⟩ | hb
      · show n + item.is_static.offset ≠ item.is_static.offset
        omega
      · exact h.ne ip' item' hb

theorem add : SgInvariant (s.npdSourceGuardEntryAdd nam ip item).1 := by
  rw [npdSourceGuardEntryAdd]
  cases hlk : s.tbl.lookup ip with
  | none => exact h.addNew hlk
  | some original =>
    dsimp only
    split_ifs with ho hsm
    · exact h
    · exact h.set hlk hsm rfl
    · -- A dynamic entry is deleted with its number, and a static one takes its place.
      have hd : original.is_static = .dynamic := by
        cases hit : item.is_static <;> cases horig : original.is_static <;>
          simp [hit, horig] at ho hsm ⊢
      have hr := h.remove hlk
      rw [hd] at hr
      refine addNew hr ?_
      show (s.tbl.erase ip).lookup ip = none
      rw [lookup_erase, if_pos rfl]

end

end SgInvariant

theorem IndexesExact.not_of_gone (h : SgInvariant s) (hit : s.tbl.lookup ip = some item)
    {s' : SgState} (hsu : ∀ ip' item', s'.tbl.lookup ip' = some item' →
      s.tbl.lookup ip' = some item') (hg : s'.tbl.lookup ip = none)
    (hp : s'.pool item.is_static = s.pool item.is_static) : ¬IndexesExact s' := by
  intro h'
  obtain ⟨n, hn, hn0, -, heq⟩ := h.exists_number hit
  rw [← hp] at hn
  rcases h'.only item.is_static n hn with hz | ⟨ip', item', hit', -, heq'⟩
  · exact hn0 hz
  · have hsm := h.distinct ip' ip item' item (hsu ip' item' hit') hit (heq'.trans heq.symm)
    rw [hsm, hg] at hit'
    simp at hit'

theorem SgInvariant.del_iff (h : SgInvariant s) (ipno eth_g_index : UInt32) (sg_type : SgType) :
    (IndexesExact (s.npdSourceGuardEntryDel ipno eth_g_index sg_type).1 ↔
      (SgCall.del ipno eth_g_index sg_type).Keeps s) ∧
    ((SgCall.del ipno eth_g_index sg_type).Keeps s →
      SgInvariant (s.npdSourceGuardEntryDel ipno eth_g_index sg_type).1) := by
  rw [npdSourceGuardEntryDel, SgCall.Keeps]
  cases hlk : s.tbl.lookup ipno with
  | none => exact ⟨iff_of_true h.toIndexesExact nofun, fun _ => h⟩
  | some item =>
    dsimp only
    split_ifs with hp hkt hd
    · exact ⟨iff_of_true h.toIndexesExact
        (fun item' h' hi => absurd (some.inj h' ▸ hi) hp), fun _ => h⟩
    · refine ⟨iff_of_true h.toIndexesExact (fun item' _ _ hsa => ?_), fun _ => h⟩
      rw [hkt.1] at hsa
      cases hsa
    · -- The entry is dynamic, and its number goes back to its pool.
      have hr := h.remove hlk
      rw [hd] at hr
      refine ⟨iff_of_true hr.toIndexesExact (fun item' h' _ _ => ?_), fun _ => hr⟩
      rw [← some.inj h']
      exact hd
    · -- The entry is static, and its number stays taken.
      have hsa : item.is_static = .static := by
        cases hit : item.is_static
        · rfl
        · exact absurd hit hd
      have hb : ¬IndexesExact
          { s.npdSgFreeStaticIndex item.sg_index with tbl := s.tbl.erase ipno } := by
        refine IndexesExact.not_of_gone h hlk (fun ip' item' h' => ?_) ?_ ?_
        · change (s.tbl.erase ipno).lookup ip' = some item' at h'
          rw [lookup_erase] at h'
          split_ifs at h'
          exact h'
        · show (s.tbl.erase ipno).lookup ipno = none
          rw [lookup_erase, if_pos rfl]
        · rw [hsa]
          rfl
      have hn : ¬∀ item', some item = some item' → item'.ifIndex = eth_g_index →
          sg_type = .static → item'.is_static = .dynamic := by
        intro ha
        have ht : sg_type = .static := by
          cases ht : sg_type
          · rfl
          · exact absurd ⟨ht, hsa⟩ hkt
        exact hd (ha item rfl (not_not.mp hp) ht)
      exact ⟨iff_of_false hb hn, fun ha => absurd ha hn⟩

theorem SgInvariant.destroy_iff (h : SgInvariant s) (netif_index : UInt32) (type : SgType) :
    (IndexesExact (s.npdSgEntryDestroyByIfindex netif_index type) ↔
      (destroy netif_index type).Keeps s) ∧
    ((destroy netif_index type).Keeps s →
      SgInvariant (s.npdSgEntryDestroyByIfindex netif_index type)) := by
  have hf : ∀ ip item, (s.npdSgEntryDestroyByIfindex netif_index type).tbl.lookup ip =
      some item ↔ s.tbl.lookup ip = some item ∧
        ¬(netif_index = item.ifIndex ∧ type = item.is_static) := by
    intro ip item
    rw [npdSgEntryDestroyByIfindex, lookup_filter_eq_some, Bool.not_eq_true',
      decide_eq_false_iff_not]
  by_cases hkp : (destroy netif_index type).Keeps s
  · -- Nothing is deleted.
    have hsm : s.npdSgEntryDestroyByIfindex netif_index type = s := by
      have htbl : (s.npdSgEntryDestroyByIfindex netif_index type).tbl = s.tbl := by
        ext1 ip
        ext1 item
        rw [hf]
        exact and_iff_left_of_imp fun hit hb =>
          hkp ip item hit hb.1.symm hb.2.symm
      change { s with tbl := (s.npdSgEntryDestroyByIfindex netif_index type).tbl } = s
      rw [htbl]
    rw [hsm]
    exact ⟨iff_of_true h.toIndexesExact hkp, fun _ => h⟩
  · refine ⟨iff_of_false ?_ hkp, fun ha => absurd ha hkp⟩
    simp only [SgCall.Keeps, not_forall, not_not] at hkp
    obtain ⟨ip, item, hit, hp, ht⟩ := hkp
    refine IndexesExact.not_of_gone h hit (fun ip' item' h' => ((hf ip' item').mp h').1) ?_ rfl
    rw [eq_none_iff_forall_ne_some]
    intro item' h'
    obtain ⟨hbe, hn⟩ := (hf ip item').mp h'
    obtain rfl := mem_unique hit hbe
    exact hn ⟨hp.symm, ht.symm⟩

end

theorem SgStep.indexesExact_iff {s s' : SgState} {call : SgCall} (hst : SgStep s call s')
    (h : SgInvariant s) : (IndexesExact s' ↔ call.Keeps s) ∧ (call.Keeps s → SgInvariant s') := by
  obtain ⟨nam, rfl⟩ := hst
  cases call with
  | add ipno item => exact ⟨iff_of_true h.add.toIndexesExact trivial, fun _ => h.add⟩
  | del ipno eth_g_index sg_type => exact h.del_iff ipno eth_g_index sg_type
  | destroy netif_index type => exact h.destroy_iff netif_index type

theorem sgInvariant_init : SgInvariant .npdIpSourceGuardInit where
  taken ip item h := absurd h (by simp [npdIpSourceGuardInit, empty])
  distinct ip ip' item item' h :=
    absurd h (by simp [npdIpSourceGuardInit, empty])
  only type n hn := .inl (mem_singleton.mp hn)
  reserved type := mem_singleton_self 0
  lt type n hn := by
    rw [mem_singleton.mp hn]
    decide
  ne ip item h := absurd h (by simp [npdIpSourceGuardInit, empty])

/-- In a run from the beginning the numbers are in order after every call exactly when no call
deletes a static entry or destroys an entry with its port. -/
theorem indexesExact_along {l : List (SgCall × SgState)}
    (hrun : Along SgStep .npdIpSourceGuardInit l) :
    Along (fun _ _ s' => IndexesExact s') .npdIpSourceGuardInit l ↔
      Along (fun s call _ => call.Keeps s) .npdIpSourceGuardInit l :=
  along_iff_of_invariant (fun _ _ _ hstep h => hstep.indexesExact_iff h) hrun sgInvariant_init

def firstFree : NamIndex where
  alloc pool := (List.range (npdSgEntryNum + 1)).find? (· ∉ pool)
  alloc_lt h := List.mem_range.mp (List.mem_of_find?_eq_some h)
  alloc_notMem h := by simpa using List.find?_some h

def staticItem : SgEntry where
  ifIndex := 1
  mac := List.Vector.replicate 6 0
  vid := 1
  sg_index := 0
  is_static := .static

def staticAdded : SgState := (add 1 staticItem).run firstFree .npdIpSourceGuardInit

def staticDeleted : SgState := (del 1 1 .static).run firstFree staticAdded

/-- The numbers are in order after the addition. -/
theorem indexesExact_added :
    Along (fun _ _ s' => IndexesExact s') .npdIpSourceGuardInit
      [(add 1 staticItem, staticAdded)] := by
  have hrun : Along SgStep .npdIpSourceGuardInit [(.add 1 staticItem, staticAdded)] :=
    ⟨⟨firstFree, rfl⟩, trivial⟩
  exact (indexesExact_along hrun).mpr ⟨trivial, trivial⟩

/-- The number of the entry stays taken after the deletion. -/
theorem indexesExact_broken :
    Along SgStep .npdIpSourceGuardInit
      [(.add 1 staticItem, staticAdded), (.del 1 1 .static, staticDeleted)] ∧
    ¬IndexesExact staticDeleted := by
  refine ⟨⟨⟨firstFree, rfl⟩, ⟨firstFree, rfl⟩, trivial⟩, ?_⟩
  have hlookup : staticAdded.tbl.lookup 1 = some { staticItem with sg_index := 1 } := rfl
  intro h
  have hkeeps := (sgInvariant_init.add.del_iff 1 1 .static).1.mp h
  nomatch hkeeps _ hlookup rfl rfl

end Chanos.Guard

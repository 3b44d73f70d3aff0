import Chanos.Database.Occupancy
import Chanos.Database.Primary
import Chanos.Lib.OrderedTable

/-!
# A table with one hash index is a bounded map

The comparison of a hash index divides the data into classes, the keys. A table whose only index is
a hash index is a finite map from keys to data with room for `entry_num` of them: its operations
return what those of `BoundedMap` return, and change it in the same way (`hashCalls_refine`). Through
a primary index, every table is in this sense an `OrderedTable` (`Orders`).
-/

namespace Chanos.Database

open Lib BoundedMap

section

variable {n : ℕ} {hash : HashIndex n} (hk : Keyed hash.bucket hash.hash_cmp)

def HashIndex.setoid : Setoid (Bytes n) where
  r x y := hash.hash_cmp x y = true
  iseqv := ⟨hk.refl, hk.symm, hk.trans⟩

open HashIndex

def HashIndex.Key : Type := Quotient (setoid hk)

def HashIndex.key (data : Bytes n) : Key hk := Quotient.mk (setoid hk) data

theorem HashIndex.key_eq_iff {x y : Bytes n} :
    key hk x = key hk y ↔ hash.hash_cmp x y = true :=
  Quotient.eq (r := setoid hk)

/-- Keys can be compared. -/
instance : DecidableEq (Key hk) :=
  @Quotient.decidableEq _ (setoid hk) fun x y =>
    inferInstanceAs (Decidable (hash.hash_cmp x y = true))

end

/-! ## The calls, on the table and on the map -/

inductive HashCall (n : ℕ)
  | insert (data : Bytes n)
  | update (data : Bytes n)
  | delete (data : Bytes n)
  | search (data : Bytes n)

open HashCall

inductive HashResult (n : ℕ)
  | code (r : ℤ)
  | deleted (r : ℤ) (ret_data : Option (Bytes n))
  | found (r : Except ℤ (Bytes n))

variable {σ : Schema}

def HashCall.run (env : Env) (t : Table σ) (i : ℕ) :
    HashCall σ.entry_size → Except Fault (Table σ × HashResult σ.entry_size)
  | insert data => do
    let r ← dbtableHashInsert env t i data
    return (r.1, .code r.2)
  | update data => do
    let r ← dbtableHashUpdate env t i data
    return (r.1, .code r.2)
  | delete data =>
    let r := dbtableHashDelete env t i data
    .ok (r.1, .deleted r.2.1 r.2.2)
  | search data => .ok (t, .found (dbtableHashSearch env t i data none))

def runHashCalls (i : ℕ) (t : Table σ) :
    List (Env × HashCall σ.entry_size) → Except Fault (Table σ × List (HashResult σ.entry_size))
  | [] => .ok (t, [])
  | (env, call) :: calls => do
    let r ← call.run env t i
    let rs ← runHashCalls i r.1 calls
    return (rs.1, r.2 :: rs.2)

section

variable {n cap : ℕ} {hash : HashIndex n} (hk : Keyed hash.bucket hash.hash_cmp)

def HashCall.onMap (m : BoundedMap (HashIndex.Key hk) (Bytes n) cap) :
    HashCall n → BoundedMap (HashIndex.Key hk) (Bytes n) cap × HashResult n
  | insert data =>
    if room : HashIndex.key hk data ∈ m.keys ∨ m.keys.card < cap then
      (m.set (HashIndex.key hk data) data room, .code 0)
    else (m, .code (-1))
  | update data =>
    if there : HashIndex.key hk data ∈ m.keys then
      (m.set (HashIndex.key hk data) data (.inl there), .code 0)
    else (m, .code (-1))
  | delete data => (m.erase (HashIndex.key hk data), .deleted 0 (m.lookup (HashIndex.key hk data)))
  | search data => (m, .found (lookupResult (m.lookup (HashIndex.key hk data))))

def mapCalls (m : BoundedMap (HashIndex.Key hk) (Bytes n) cap) :
    List (HashCall n) → BoundedMap (HashIndex.Key hk) (Bytes n) cap × List (HashResult n)
  | [] => (m, [])
  | call :: calls =>
    let r := call.onMap hk m
    let rs := mapCalls r.1 calls
    (rs.1, r.2 :: rs.2)

end

/-! ## One call -/

section

variable {hash : HashIndex σ.entry_size} {hk : Keyed hash.bucket hash.hash_cmp}
  {m : BoundedMap (HashIndex.Key hk) σ.Data σ.entry_num} (hone : σ.index_list = [.hash hash])
include hone

theorem hashIndex_zero : σ.hashIndex 0 = some hash := by
  rw [Schema.hashIndex_eq_some, hone]
  rfl

theorem primary_zero (hk : Keyed hash.bucket hash.hash_cmp) :
    Primary σ 0 hash (HashIndex.key hk) where
  hashIndex := hashIndex_zero hone
  cmp_iff _ _ := (HashIndex.key_eq_iff hk).symm
  bucket_eq _ _ h := hk.bucket_eq ((HashIndex.key_eq_iff hk).mp h)
  inRange := hk.inRange
  others j ix hix hj := by
    -- There is no other index.
    rw [hone, List.getElem?_singleton, if_neg hj] at hix
    simp at hix

theorem HashCall.run_refines {t : Table σ} (h : StandsFor (HashIndex.key hk) t.toCore m)
    (env : Env) (hse : σ.Fits ∨ env.sends σ true = false) (call : HashCall σ.entry_size) :
    ∃ t', call.run env t 0 = .ok (t', (call.onMap hk m).2) ∧
      StandsFor (HashIndex.key hk) t'.toCore (call.onMap hk m).1 := by
  have hp := primary_zero hone hk
  cases call with
  | insert data =>
    obtain ⟨t', hrun, hsd, -⟩ := h.insert hp env data hse
    rw [run, onMap, hrun]
    by_cases room : HashIndex.key hk data ∈ m.keys ∨ m.keys.card < σ.entry_num
    · have hr : m.HasRoom (HashIndex.key hk data) := room
      rw [put, dif_pos hr] at hsd
      rw [dif_pos room, if_pos hr]
      exact ⟨t', rfl, hsd⟩
    · have hr : ¬m.HasRoom (HashIndex.key hk data) := room
      rw [put, dif_neg hr] at hsd
      rw [dif_neg room, if_neg hr]
      exact ⟨t', rfl, hsd⟩
  | update data =>
    obtain ⟨t', hrun, hsd, -⟩ := h.update hp env data hse
    rw [run, onMap, hrun]
    by_cases there : HashIndex.key hk data ∈ m.keys
    · rw [if_pos there, put, dif_pos (show m.HasRoom _ from .inl there)] at hsd
      rw [dif_pos there, if_pos there]
      exact ⟨t', rfl, hsd⟩
    · rw [if_neg there] at hsd
      rw [dif_neg there, if_neg there]
      exact ⟨t', rfl, hsd⟩
  | delete data =>
    obtain ⟨t', hrun, hsd, -⟩ := h.delete hp env data
    refine ⟨t', ?_, hsd⟩
    rw [run, onMap, hrun]
  | search data =>
    refine ⟨t, ?_, h⟩
    rw [run, onMap, h.search_eq hp]

/-! ## Whole runs -/

theorem runHashCalls_refine (calls : List (Env × HashCall σ.entry_size))
    (hse : ∀ c ∈ calls, σ.Fits ∨ c.1.sends σ true = false) {t : Table σ}
    (h : StandsFor (HashIndex.key hk) t.toCore m) :
    ∃ t', runHashCalls 0 t calls = .ok (t', (mapCalls hk m (calls.map Prod.snd)).2) ∧
      StandsFor (HashIndex.key hk) t'.toCore (mapCalls hk m (calls.map Prod.snd)).1 := by
  induction calls generalizing t m with
  | nil => exact ⟨t, rfl, h⟩
  | cons c calls ih =>
    obtain ⟨t₁, hrun, h₁⟩ := c.2.run_refines hone h c.1 (hse c List.mem_cons_self)
    obtain ⟨t', hr, h'⟩ := ih (fun c' hc' => hse c' (List.mem_cons_of_mem _ hc')) h₁
    refine ⟨t', ?_, h'⟩
    rw [runHashCalls, hrun]
    change (runHashCalls 0 t₁ calls >>= _) = _
    rw [hr]
    rfl

end

/-- Calls on a new table whose only index is a working hash index return what they return on an
empty map with room for `entry_num` keys. The table they end with holds the data of the keys of the
map they end with, and its count is the number of these keys. -/
theorem hashCalls_refine {hash : HashIndex σ.entry_size} (hone : σ.index_list = [.hash hash])
    (hk : Keyed hash.bucket hash.hash_cmp) (calls : List (Env × HashCall σ.entry_size))
    (hsend : ∀ c ∈ calls, σ.Fits ∨ c.1.sends σ true = false) :
    let r := mapCalls hk (.empty : BoundedMap _ _ σ.entry_num) (calls.map Prod.snd)
    ∃ t, runHashCalls 0 (createDbtable σ) calls = .ok (t, r.2) ∧
      Slots (HashIndex.key hk) (dbTableGetEntry t.toCore) r.1 ∧
      dbtableHashCount t 0 = r.1.keys.card := by
  intro r
  have hcreate : StandsFor (HashIndex.key hk) (createDbtable σ).toCore .empty := standsFor_create
  obtain ⟨t, hrun, h⟩ := runHashCalls_refine hone calls hsend hcreate
  refine ⟨t, hrun, h.slots, ?_⟩
  have hcard := h.use_num_eq
  have hlt : r.1.keys.card < 2 ^ 31 := lt_of_le_of_lt r.1.card_le σ.entry_num_lt
  have huse : t.entry_use_num = UInt32.ofNat r.1.keys.card := by rw [← hcard, UInt32.ofNat_toNat]
  unfold dbtableHashCount
  rw [hashIndex_zero hone]
  rw [huse, signed32_ofNat hlt]

/-! ## Ordered tables -/

/-- The table has the entries of the ordered one. -/
def Orders {κ : Type*} {key : σ.Data → κ} {bucket : κ → ℕ} (t : Table σ)
    (T : OrderedTable key bucket σ.entry_num) : Prop :=
  ∃ m, StandsFor key t.toCore m ∧ T.Holds m

theorem orders_create {κ : Type*} [DecidableEq κ] {key : σ.Data → κ} {bucket : κ → ℕ} :
    Orders (createDbtable σ) (.empty : OrderedTable key bucket σ.entry_num) :=
  ⟨.empty, standsFor_create, fun _ _ => by simp [OrderedTable.empty, BoundedMap.empty]⟩

/-- The calls through a primary index do what the operations of an ordered table do. -/
theorem Orders.calls {κ : Type*} [DecidableEq κ] {i : ℕ} {hash : HashIndex σ.entry_size}
    {key : σ.Data → κ} {bucket : κ → ℕ} (hp : Primary σ i hash key) {t : Table σ}
    {T : OrderedTable key bucket σ.entry_num} (h : Orders t T) (env : Env) (data : σ.Data)
    (hse : σ.Fits ∨ env.sends σ true = false) :
    let found := T.search (bucket (key data)) (hash.hash_cmp data)
    dbtableHashSearch env t i data none = lookupResult found ∧
      (∃ t', dbtableHashInsert env t i data = .ok (t', if (T.insert data).2 then 0 else -1) ∧
        Orders t' (T.insert data).1) ∧
      ∃ t', dbtableHashDelete env t i data = (t', 0, found) ∧ Orders t' (T.erase (key data)) := by
  obtain ⟨m, hm, hT⟩ := h
  have hs : T.search (bucket (key data)) (hash.hash_cmp data) = m.lookup (key data) :=
    hT.search fun x => (hp.cmp_iff data x).trans eq_comm
  obtain ⟨t₁, hi, hm₁, -⟩ := hm.insert hp env data hse
  obtain ⟨t₂, hd, hm₂, -⟩ := hm.delete hp env data
  simp only [hT.hasRoom_iff] at hi
  rw [hs]
  exact ⟨hm.search_eq hp env data, ⟨t₁, hi, _, hm₁, hT.insert data⟩, t₂, hd, _, hm₂, hT.erase _⟩

def oneBucket (n : ℕ) : HashIndex n where
  size := 1
  hash_key := some fun _ => 0
  hash_cmp x y := x.toList.getD 0 0 == y.toList.getD 0 0

theorem oneBucket_keyed (n : ℕ) : Keyed (oneBucket n).bucket (oneBucket n).hash_cmp :=
  .of_key (·.toList.getD 0 0) (fun _ _ => beq_iff_eq) (fun _ _ _ => rfl) fun _ => rfl

def oneChain : Schema :=
  { twoKeys with
    entry_num := 2
    index_list := [.hash (oneBucket 2)]
    entry_num_lt := smallArray.entry_num_lt }

/-- In a table of two entries in one chain, a third key is refused until one of the others is
deleted, whose entry it then gets. -/
theorem hashCalls_refine_full :
    let first : oneChain.Data := twoBytes 1 7
    let second : oneChain.Data := twoBytes 2 7
    let third : oneChain.Data := twoBytes 3 7
    ∃ t, runHashCalls 0 (createDbtable oneChain) [(quietEnv, .insert first),
        (quietEnv, .insert second), (quietEnv, .insert third), (quietEnv, .delete first),
        (quietEnv, .insert third), (quietEnv, .search third)] =
      .ok (t, [.code 0, .code 0, .code (-1), .deleted 0 (some first),
        .code 0, .found (.ok third)]) ∧
      dbtableHashCount t 0 = 2 := by
  intro first second third
  obtain ⟨t, hrun, -, hcount⟩ := hashCalls_refine (σ := oneChain) rfl (oneBucket_keyed 2)
    [(quietEnv, .insert first), (quietEnv, .insert second), (quietEnv, .insert third),
      (quietEnv, .delete first), (quietEnv, .insert third), (quietEnv, .search third)]
    (fun _ _ => Or.inl ⟨by decide, by decide⟩)
  exact ⟨t, hrun, hcount⟩

/-- With a `compFunc` a search may return the data of another key: here every key is accepted, and
the search for a key that is not there returns the entry of another one. -/
theorem dbtableHashSearch_compFunc :
    let first : oneChain.Data := twoBytes 1 7
    let second : oneChain.Data := twoBytes 2 7
    ∃ t, runHashCalls 0 (createDbtable oneChain) [(quietEnv, .insert first)] = .ok (t, [.code 0]) ∧
      (oneBucket 2).hash_cmp second first = false ∧
      dbtableHashSearch quietEnv t 0 second none = .error returnCodeEntryNotExist ∧
      dbtableHashSearch quietEnv t 0 second (some fun _ _ => true) = .ok first :=
  ⟨_, rfl, rfl, rfl, rfl⟩

end Chanos.Database

import Chanos.Database.Message
import Chanos.Lib.Chain

/-!
# Tables, entries and indexes

The data of `db_table_t`. What `create_dbtable` and the index constructors fix for good is the
`Schema` of a table.
-/

namespace Chanos.Database

open Lib List

/-- A hash index, `dbhash_t`: the number of buckets, the bucket function, which may be `NULL`, and
the comparison, which is true where the source compares its value with `TRUE`. -/
structure HashIndex (n : ℕ) where
  size : ℕ
  hash_key : Option (Bytes n → ℕ)
  hash_cmp : Bytes n → Bytes n → Bool

/-- A sequence index, `dbsequence_t`: the bucket of an entry is `sequence_index` of its
`sequence_key`. -/
structure SequenceIndex (n : ℕ) where
  size : ℕ
  sequence_index : ℕ → ℕ
  sequence_key : Bytes n → ℕ
  sequence_cmp : Bytes n → Bytes n → Bool

inductive Index (n : ℕ)
  | hash (h : HashIndex n)
  | sequence (s : SequenceIndex n)
  | array

def HashIndex.bucket {n : ℕ} (h : HashIndex n) (d : Bytes n) : Option ℕ :=
  (h.hash_key.map fun key => key d).filter (· < h.size)

def SequenceIndex.bucketAt {n : ℕ} (s : SequenceIndex n) (sequence_index : ℕ) : Option ℕ :=
  (some (s.sequence_index sequence_index)).filter (· < s.size)

def Index.bucket {n : ℕ} : Index n → Bytes n → Option ℕ
  | hash h, d => h.bucket d
  | sequence s, d => s.bucketAt (s.sequence_key d)
  | array, _ => none

def Index.cmp {n : ℕ} : Index n → Bytes n → Bytes n → Bool
  | hash h => h.hash_cmp
  | sequence s => s.sequence_cmp
  | array => fun _ _ => false

inductive HandlerCall (n : ℕ)
  | handleUpdate (new_entry old_entry : Bytes n)
  | appHandleUpdate (new_entry old_entry : Bytes n)
  | handleInsert (entry : Bytes n)
  | handleDelete (entry : Bytes n)
  | appHandleDelete (entry : Bytes n)

abbrev Handler (n : ℕ) : Type := List (HandlerCall n) → HandlerCall n → ℤ

def DB_SYNC_NONE : UInt32 := 8

def DB_SYNC_ALL : UInt32 := 1

def maxSendSize : ℕ := 20000

/-- What the constructors of a table and of its indexes fix. -/
structure Schema where
  name : Bytes 31
  entry_num : ℕ
  entry_size : ℕ
  sync_size : ℕ
  sync_mode : UInt32
  handle_update : Option (Handler entry_size) := none
  app_handle_update : Option (Handler entry_size) := none
  handle_insert : Option (Handler entry_size) := none
  handle_delete : Option (Handler entry_size) := none
  app_handle_delete : Option (Handler entry_size) := none
  entry_ntoh : Option (Bytes entry_size → Bytes entry_size) := none
  entry_hton : Option (Bytes entry_size → Bytes entry_size) := none
  index_list : List (Index entry_size)
  entry_num_lt : entry_num < 2 ^ 31
  entry_size_lt : entry_size < 2 ^ 32
  sync_size_le : sync_size ≤ entry_size

abbrev Schema.Data (σ : Schema) : Type := Bytes σ.entry_size

/-! ## State -/

/-- The part of `dbentry_common_t` that decides what the operations do: the flags `DB_ENTRY_EXIST`
and `DB_DELETE_NOT_SYNCED`, and the allocated data. -/
structure DbEntry (n : ℕ) where
  exist : Bool
  delete_not_synced : Bool
  real_data : Option (Bytes n)

structure Core (σ : Schema) where
  entries : ℕ → DbEntry σ.entry_size
  entry_alloc_list : List ℕ
  entry_use_num : UInt32
  chains : ℕ → ℕ → List ℕ

inductive EntryFlag
  | hwSwSynced
  | masterSlaveSynced
  deriving DecidableEq

structure Table (σ : Schema) extends Core σ where
  flags : EntryFlag → ℕ → Bool
  calls : List (HandlerCall σ.entry_size)
  sent : List SyncCall

variable {σ : Schema}

def osalTableEntryAllocListInit (entry_num : ℕ) : List ℕ :=
  (List.range entry_num).foldl (fun l i => (entry_num - i - 1) :: l) []

def Core.create (σ : Schema) : Core σ where
  entries _ := ⟨false, false, none⟩
  entry_alloc_list := osalTableEntryAllocListInit σ.entry_num
  entry_use_num := 0
  chains _ _ := []

def createDbtable (σ : Schema) : Table σ where
  toCore := Core.create σ
  flags _ _ := false
  calls := []
  sent := []

theorem entryAllocListInit_eq (n : ℕ) : osalTableEntryAllocListInit n = range n := by
  -- After `k` pushes the list holds the `k` largest ids in increasing order.
  have hp : ∀ k, k ≤ n → (range k).foldl (fun l i => (n - i - 1) :: l) [] = range' (n - k) k := by
    intro k hk
    induction k with
    | zero => rfl
    | succ k ih =>
      rw [range_succ, foldl_append, ih (by omega), foldl_cons, foldl_nil, range'_succ]
      have h1 : n - k - 1 = n - (k + 1) := by omega
      have h2 : n - (k + 1) + 1 = n - k := by omega
      rw [h1, h2]
  rw [osalTableEntryAllocListInit, hp n le_rfl, Nat.sub_self, range_eq_range']

inductive MallocSite
  | search
  | caller
  | indexInsert (i entry_id : ℕ)
  | indexDelete (i entry_id : ℕ)
  deriving DecidableEq

structure Env where
  have_sync : Bool
  platform_relay_flag : Bool
  platform_db_sync : Option (SyncCall → ℤ)
  malloc : (n : ℕ) → MallocSite → Bytes n

inductive Fault
  | divByZero
  | outOfBounds
  | nullPointer
  | danglingPointer
  | formatString
  | wrongIndexType
  deriving DecidableEq

end Chanos.Database

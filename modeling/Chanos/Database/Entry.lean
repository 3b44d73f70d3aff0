import Chanos.Database.Table

/-!
# Reading and writing entries

The functions of the database that all indexes share. Each mutator is written in two steps: what it
does to the core of the table (`Core.insertEntry` and so on), and around it what it sends.
-/

namespace Chanos.Database

open Lib List Function UInt32 Nat

variable {σ : Schema} {n : ℕ} (c : Core σ) (entry_id : ℕ)

/-- `db_table_get_entry`: the data of an existing entry. -/
def dbTableGetEntry : Option σ.Data :=
  if σ.entry_num ≤ entry_id then none
  else if (c.entries entry_id).exist then (c.entries entry_id).real_data else none

def dbTableSyncGetEntry (data : σ.Data) : σ.Data :=
  match dbTableGetEntry c entry_id with
  | some d => Bytes.splice σ.sync_size d data
  | none => data

theorem getEntry_congr {c c' : Core σ} (h : c'.entries = c.entries) :
    dbTableGetEntry c' = dbTableGetEntry c := by
  funext id
  unfold dbTableGetEntry
  rw [h]

theorem getEntry_update {c c' : Core σ} {entry_id : ℕ} {e : DbEntry σ.entry_size}
    (hlt : entry_id < σ.entry_num) (h : c'.entries = update c.entries entry_id e) :
    dbTableGetEntry c' = update (dbTableGetEntry c) entry_id
      (if e.exist then e.real_data else none) := by
  funext id
  unfold dbTableGetEntry
  rw [h, update_apply, update_apply]
  split_ifs <;> first | rfl | omega

theorem getEntry_create (σ : Schema) (id : ℕ) : dbTableGetEntry (Core.create σ) id = none := by
  unfold dbTableGetEntry
  split_ifs with h1 h2
  · rfl
  · exact absurd h2 Bool.false_ne_true
  · rfl

def Core.take : Core σ :=
  { c with
    entry_use_num := c.entry_use_num + 1
    entry_alloc_list := c.entry_alloc_list.erase entry_id }

def osalTableEntryIdAlloc : Option (ℕ × Core σ) :=
  match c.entry_alloc_list with
  | [] => none
  | entry_id :: _ =>
    if σ.entry_num ≤ c.entry_use_num.toNat then none else some (entry_id, c.take entry_id)

def dbTableInternalAlloc (input_id : ℕ) : Option (Core σ) :=
  if input_id ∈ c.entry_alloc_list then some (c.take input_id) else none

def dbTableInternalAllocAfter (input_id : ℕ) : Option (ℕ × Core σ) :=
  (c.entry_alloc_list.find? (input_id ≤ ·)).map fun entry_id => (entry_id, c.take entry_id)

def dbTableInternalFreeOrder (index : ℕ) : Core σ :=
  { c with
    entry_use_num := c.entry_use_num - 1
    entry_alloc_list := c.entry_alloc_list.orderedInsert (· < ·) index }

/-! ## The chains of one index

An index sees the entries through `get` and changes its own chains only. `cmpdata` is the buffer
that the function allocates for the entries it compares with. -/

section

variable (get : ℕ → Option (Bytes n)) (cmpdata : Bytes n)

def internalInsert (bucket : Option ℕ) (cmp : Bytes n → Bool) (entry_id : ℕ)
    (chains : ℕ → List ℕ) : ℕ → List ℕ :=
  match bucket with
  | none => chains
  | some b =>
    match scan get cmp cmpdata (chains b) with
    | some _ => chains
    | none => update chains b (chains b ++ [entry_id])

def internalDelete (bucket : Option ℕ) (cmp : Bytes n → Bool) (chains : ℕ → List ℕ) :
    ℕ → List ℕ :=
  match bucket with
  | none => chains
  | some b => update chains b (unlink get cmp cmpdata (chains b))

def dbtableHashInternalInsert (h : HashIndex n) (data : Bytes n) (entry_id : ℕ) :
    (ℕ → List ℕ) → ℕ → List ℕ :=
  internalInsert get cmpdata (h.bucket data) (h.hash_cmp data) entry_id

def dbtableHashInternalDelete (h : HashIndex n) (data : Bytes n) : (ℕ → List ℕ) → ℕ → List ℕ :=
  internalDelete get cmpdata (h.bucket data) fun x => h.hash_cmp x data

def dbtableSequenceInternalInsert (s : SequenceIndex n) (data : Bytes n) (entry_id : ℕ) :
    (ℕ → List ℕ) → ℕ → List ℕ :=
  internalInsert get cmpdata (s.bucketAt (s.sequence_key data)) (s.sequence_cmp data) entry_id

def dbtableSequenceInternalDelete (s : SequenceIndex n) (data : Bytes n) :
    (ℕ → List ℕ) → ℕ → List ℕ :=
  internalDelete get cmpdata (s.bucketAt (s.sequence_key data)) (s.sequence_cmp data)

def Index.indexInsert (ix : Index n) (data : Bytes n) (entry_id : ℕ) :
    (ℕ → List ℕ) → ℕ → List ℕ :=
  match ix with
  | hash h => dbtableHashInternalInsert get cmpdata h data entry_id
  | sequence s => dbtableSequenceInternalInsert get cmpdata s data entry_id
  | array => id

def Index.indexDelete (ix : Index n) (data : Bytes n) : (ℕ → List ℕ) → ℕ → List ℕ :=
  match ix with
  | hash h => dbtableHashInternalDelete get cmpdata h data
  | sequence s => dbtableSequenceInternalDelete get cmpdata s data
  | array => id

end

/-! ## The other indexes -/

def Core.setIndex (i : ℕ) (chains : ℕ → List ℕ) : Core σ :=
  { c with chains := update c.chains i chains }

def Core.forEachIndex (orig_index : Option ℕ)
    (f : ℕ → Index σ.entry_size → (ℕ → List ℕ) → ℕ → List ℕ) : Core σ :=
  σ.index_list.zipIdx.foldl
    (fun c p => if some p.2 = orig_index then c else c.setIndex p.2 (f p.2 p.1 (c.chains p.2))) c

section

variable (c : Core σ) (orig_index : Option ℕ)
  (f : ℕ → Index σ.entry_size → (ℕ → List ℕ) → ℕ → List ℕ)

namespace Core

theorem forEachIndex_round (k : ℕ) (ix : Index σ.entry_size) :
    (if some k = orig_index then c else c.setIndex k (f k ix (c.chains k))) =
      c.setIndex k (if some k = orig_index then c.chains k else f k ix (c.chains k)) := by
  split_ifs
  · rw [setIndex, update_eq_self]
  · rfl

theorem forEachIndex_eq :
    c.forEachIndex orig_index f =
      { c with
        chains := fun i =>
          match σ.index_list[i]? with
          | none => c.chains i
          | some ix => if some i = orig_index then c.chains i else f i ix (c.chains i) } := by
  -- The same for the loop over the rest of the list, which starts at position `k`.
  have hlp : ∀ (l : List (Index σ.entry_size)) (k : ℕ) (c : Core σ), (l.zipIdx k).foldl (fun c p =>
          if some p.2 = orig_index then c else c.setIndex p.2 (f p.2 p.1 (c.chains p.2))) c =
        { c with
          chains := fun i =>
            if i < k then c.chains i
            else
              match l[i - k]? with
              | none => c.chains i
              | some ix => if some i = orig_index then c.chains i else f i ix (c.chains i) } := by
    intro l
    induction l with
    | nil =>
      intro k c
      simp
    | cons ix l ih =>
      intro k c
      rw [zipIdx_cons, foldl_cons, ih, forEachIndex_round, setIndex, mk.injEq]
      refine ⟨rfl, rfl, rfl, funext fun i => ?_⟩
      dsimp only
      rcases lt_trichotomy i k with hi | rfl | hi
      · rw [if_pos (by omega), if_pos hi, update_of_ne (by omega)]
      · simp
      · obtain ⟨j, rfl⟩ : ∃ j, i = k + 1 + j := ⟨i - (k + 1), by omega⟩
        have h1 : k + 1 + j - (k + 1) = j := by omega
        have h2 : k + 1 + j - k = j + 1 := by omega
        have hne : k + 1 + j ≠ k := by omega
        rw [if_neg (by omega : ¬ k + 1 + j < k + 1), if_neg (by omega : ¬ k + 1 + j < k), h1, h2,
          getElem?_cons_succ, update_of_ne hne]
  rw [forEachIndex, hlp σ.index_list 0 c]
  simp

@[simp]
theorem forEachIndex_entries : (c.forEachIndex orig_index f).entries = c.entries := by
  rw [forEachIndex_eq]

@[simp]
theorem forEachIndex_entry_alloc_list :
    (c.forEachIndex orig_index f).entry_alloc_list = c.entry_alloc_list := by
  rw [forEachIndex_eq]

@[simp]
theorem forEachIndex_entry_use_num :
    (c.forEachIndex orig_index f).entry_use_num = c.entry_use_num := by
  rw [forEachIndex_eq]

theorem forEachIndex_chains_orig {i : ℕ} (h : orig_index = some i) :
    (c.forEachIndex orig_index f).chains i = c.chains i := by
  rw [forEachIndex_eq]
  cases hi : σ.index_list[i]? with
  | none => simp [hi]
  | some ix => simp [hi, h]

theorem forEachIndex_chains {i : ℕ} {ix : Index σ.entry_size} (hix : σ.index_list[i]? = some ix)
    (h : orig_index ≠ some i) : (c.forEachIndex orig_index f).chains i = f i ix (c.chains i) := by
  rw [forEachIndex_eq]
  simp [hix, Ne.symm h]

end Core

end

variable (malloc : MallocSite → σ.Data) (entry_id : ℕ)

def Core.insertEntry (data : σ.Data)
    (orig_index : Option ℕ) : Core σ :=
  let c : Core σ :=
    { c with
      entries := update c.entries entry_id
        { c.entries entry_id with exist := true, real_data := some data } }
  c.forEachIndex orig_index fun i ix =>
    ix.indexInsert (dbTableGetEntry c) (malloc (.indexInsert i entry_id)) data entry_id

def Core.freeEntryIndex (orig_index : Option ℕ) : Core σ :=
  match dbTableGetEntry c entry_id with
  | none => c
  | some old =>
    c.forEachIndex orig_index fun i ix =>
      ix.indexDelete (dbTableGetEntry c) (malloc (.indexDelete i entry_id)) old

def Core.deleteEntry : Core σ :=
  if (c.entries entry_id).delete_not_synced then c
  else
    dbTableInternalFreeOrder
      { c with
        entries := update c.entries entry_id
          { c.entries entry_id with exist := false, real_data := none } }
      entry_id

def Core.updateEntry (old data : σ.Data)
    (orig_index : Option ℕ) : Core σ :=
  let c := c.forEachIndex orig_index fun i ix =>
    ix.indexDelete (dbTableGetEntry c) (malloc (.indexDelete i entry_id)) old
  let c : Core σ :=
    { c with
      entries := update c.entries entry_id
        { c.entries entry_id with real_data := some data } }
  c.forEachIndex orig_index fun i ix =>
    ix.indexInsert (dbTableGetEntry c) (malloc (.indexInsert i entry_id)) data entry_id

section

variable (c : Core σ) (malloc : MallocSite → σ.Data) (entry_id : ℕ) (old data : σ.Data)
  (orig_index : Option ℕ) {ix : Index σ.entry_size} {i : ℕ}

namespace Core

theorem insertEntry_entries :
    (c.insertEntry malloc entry_id data orig_index).entries =
      update c.entries entry_id
        { c.entries entry_id with exist := true, real_data := some data } := by
  rw [insertEntry, forEachIndex_entries]

theorem updateEntry_entries :
    (c.updateEntry malloc entry_id old data orig_index).entries =
      update c.entries entry_id { c.entries entry_id with real_data := some data } := by
  rw [updateEntry, forEachIndex_entries, forEachIndex_entries]

abbrev SameStore (c' c : Core σ) : Prop :=
  c'.entries = c.entries ∧ c'.entry_alloc_list = c.entry_alloc_list ∧
    c'.entry_use_num = c.entry_use_num

theorem freeEntryIndex_store : (c.freeEntryIndex malloc entry_id orig_index).SameStore c := by
  unfold freeEntryIndex
  cases dbTableGetEntry c entry_id with
  | none => exact ⟨rfl, rfl, rfl⟩
  | some old => simp [SameStore]

theorem insertEntry_chains_orig (hi : orig_index = some i) :
    (c.insertEntry malloc entry_id data orig_index).chains i = c.chains i := by
  rw [insertEntry, forEachIndex_chains_orig _ _ _ hi]

theorem insertEntry_chains (hlt : entry_id < σ.entry_num)
    (hix : σ.index_list[i]? = some ix) (hi : orig_index ≠ some i) :
    (c.insertEntry malloc entry_id data orig_index).chains i =
      ix.indexInsert (update (dbTableGetEntry c) entry_id (some data))
        (malloc (.indexInsert i entry_id)) data entry_id (c.chains i) := by
  rw [insertEntry, forEachIndex_chains _ _ _ hix hi, getEntry_update hlt rfl, if_pos rfl]

theorem updateEntry_chains_orig (hi : orig_index = some i) :
    (c.updateEntry malloc entry_id old data orig_index).chains i = c.chains i := by
  rw [updateEntry, forEachIndex_chains_orig _ _ _ hi]
  exact forEachIndex_chains_orig _ _ _ hi

theorem updateEntry_chains (hlt : entry_id < σ.entry_num) (hex : (c.entries entry_id).exist = true)
    (hix : σ.index_list[i]? = some ix) (hi : orig_index ≠ some i) :
    (c.updateEntry malloc entry_id old data orig_index).chains i =
      ix.indexInsert (update (dbTableGetEntry c) entry_id (some data))
        (malloc (.indexInsert i entry_id)) data entry_id
        (ix.indexDelete (dbTableGetEntry c) (malloc (.indexDelete i entry_id)) old
          (c.chains i)) := by
  have hget := getEntry_update hlt (updateEntry_entries c malloc entry_id old data orig_index)
  rw [if_pos hex, updateEntry, getEntry_congr (forEachIndex_entries _ _ _)] at hget
  rw [updateEntry, forEachIndex_chains _ _ _ hix hi, hget]
  congr 1
  exact forEachIndex_chains _ _ _ hix hi

theorem freeEntryIndex_chains_orig (hi : orig_index = some i) :
    (c.freeEntryIndex malloc entry_id orig_index).chains i = c.chains i := by
  unfold freeEntryIndex
  cases dbTableGetEntry c entry_id with
  | none => rfl
  | some old => exact forEachIndex_chains_orig _ _ _ hi

theorem freeEntryIndex_chains (hget : dbTableGetEntry c entry_id = some old)
    (hix : σ.index_list[i]? = some ix) (hi : orig_index ≠ some i) :
    (c.freeEntryIndex malloc entry_id orig_index).chains i =
      ix.indexDelete (dbTableGetEntry c) (malloc (.indexDelete i entry_id)) old (c.chains i) := by
  rw [freeEntryIndex, hget]
  exact forEachIndex_chains _ _ _ hix hi

theorem deleteEntry_chains : (c.deleteEntry entry_id).chains = c.chains := by
  unfold deleteEntry
  split_ifs <;> rfl

end Core

end

variable (t : Table σ)

def dbTableSyncedEntry (entry_id : ℕ) (flag : EntryFlag) : Table σ :=
  if σ.entry_num ≤ entry_id then t
  else { t with
      flags := update t.flags flag (update (t.flags flag) entry_id true) }

def dbTableUnsyncedEntry (entry_id : ℕ) (flag : EntryFlag) : Table σ :=
  if σ.entry_num ≤ entry_id then t
  else
    { t with flags := update t.flags flag (update (t.flags flag) entry_id false) }

def callHandler (handler : Option (Handler σ.entry_size))
    (call : HandlerCall σ.entry_size) (ret : ℤ) : Table σ × ℤ :=
  match handler with
  | none => (t, ret)
  | some f => ({ t with calls := t.calls ++ [call] }, f t.calls call)

/-! ## Messages to the other databases -/

def Schema.hton (σ : Schema) (data : σ.Data) : σ.Data :=
  match σ.entry_hton with
  | none => data
  | some hton => hton data

def syncEntry : σ.Data :=
  σ.hton (dbTableSyncGetEntry c entry_id (Bytes.zero σ.entry_size))

def syncHeader (σ : Schema) (op : SyncOp) (start_id num : ℕ) : SyncHeader where
  version := 0
  type := syncTypeEntry
  op := op.code
  tbl_id := 0
  name := strncpyName σ.name
  total_len := ofNat (headerSize + σ.entry_size * num)
  entry_len := ofNat σ.entry_size
  sync_len := ofNat σ.sync_size
  start_index := ofNat start_id
  entry_num := ofNat num

/-- The message about `num` entries from `start_id` on that the three `dbtable_sync_data` functions
build, each with its own operation. -/
def syncMsg (op : SyncOp) (start_id num : ℕ) : SyncMsg where
  header := syncHeader σ op start_id num
  payload := (List.range num).flatMap fun i => (syncEntry c (start_id + i)).toList

variable (env : Env) (t : Table σ)

/-- The common body of the three `dbtable_sync_data` functions: the message goes to
`platform_db_sync`, and where that returns `0` its entries are marked. -/
def dbtableSyncData (op : SyncOp) (start_id num : ℕ) (slot_index : ℤ) :
    Table σ :=
  match env.platform_db_sync with
  | none => t
  | some db_sync =>
    let call : SyncCall := ⟨syncMsg t.toCore op start_id num, σ.sync_mode, slot_index⟩
    let t := { t with sent := t.sent ++ [call] }
    if db_sync call = 0 then
      (List.range num).foldl
        (fun t i => dbTableSyncedEntry t (start_id + i) .masterSlaveSynced) t
    else t

variable (start_id num : ℕ) (slot_index : ℤ)

def dbtableSyncDataInsertPiece :
    Table σ :=
  dbtableSyncData env t .itemAdd start_id num slot_index

def dbtableSyncDataDelete : Table σ :=
  dbtableSyncData env t .itemDel start_id num slot_index

def dbtableSyncDataUpdate : Table σ :=
  dbtableSyncData env t .itemUpdate start_id num slot_index

/-- `dbtable_sync_data_insert`: the entries in pieces that fit a message. -/
def dbtableSyncDataInsert :
    Except Fault (Table σ) :=
  if σ.entry_size = 0 then .error .divByZero
  else
    let send_num := (maxSendSize - headerSize) / σ.entry_size
    if send_num = 0 then .error .divByZero
    else
      let send_count := num / send_num + 1
      let piece (acc : Table σ × ℕ) (i : ℕ) : Table σ × ℕ :=
        -- The last piece has what is left, which may be nothing.
        let k := if i = send_count - 1 then num - (send_count - 1) * send_num else send_num
        (dbtableSyncDataInsertPiece env acc.1 acc.2 k slot_index, acc.2 + k)
      .ok ((List.range send_count).foldl piece (t, start_id)).1

def Env.sends (σ : Schema) (local_flag : Bool) : Bool :=
  env.have_sync && σ.sync_mode != DB_SYNC_NONE && (local_flag || env.platform_relay_flag)

def dbTableInsertEntry (entry_id : ℕ) (data : σ.Data)
    (orig_index : Option ℕ) (local_flag : Bool) : Except Fault (Table σ) :=
  if σ.entry_num ≤ entry_id then .ok t
  else
    let t := { t with toCore := t.toCore.insertEntry (env.malloc _) entry_id data orig_index }
    if env.sends σ local_flag then dbtableSyncDataInsert env t entry_id 1 (-1) else .ok t

def dbTableFreeEntryIndex (entry_id : ℕ) (orig_index : Option ℕ) :
    Table σ :=
  { t with toCore := t.toCore.freeEntryIndex (env.malloc _) entry_id orig_index }

def dbTableDeleteEntry (entry_id : ℕ) (local_flag : Bool) : Table σ :=
  if σ.entry_num ≤ entry_id then t
  else if (t.entries entry_id).exist then
    let t := if env.sends σ local_flag then dbtableSyncDataDelete env t entry_id 1 (-1) else t
    { t with toCore := t.toCore.deleteEntry entry_id }
  else t

def dbTableUpdateEntry (entry_id : ℕ) (data : σ.Data)
    (orig_index : Option ℕ) (local_flag : Bool) : Table σ × ℤ :=
  if σ.entry_num ≤ entry_id then (t, -1)
  else
    match (t.entries entry_id).real_data with
    | none => (t, -1)
    | some old =>
      let sync_remote := Bytes.head σ.sync_size data != Bytes.head σ.sync_size old
      let t := { t with toCore := t.toCore.updateEntry (env.malloc _) entry_id old data orig_index }
      if env.sends σ local_flag && sync_remote then
        (dbtableSyncDataUpdate env t entry_id 1 (-1), 0)
      else (t, 0)

/-! ## What the functions leave alone -/

section

variable (env : Env) (t : Table σ) (entry_id : ℕ) (flag : EntryFlag)

@[simp]
theorem syncedEntry_toCore : (dbTableSyncedEntry t entry_id flag).toCore = t.toCore := by
  unfold dbTableSyncedEntry
  split_ifs <;> rfl

@[simp]
theorem syncedEntry_calls : (dbTableSyncedEntry t entry_id flag).calls = t.calls := by
  unfold dbTableSyncedEntry
  split_ifs <;> rfl

@[simp]
theorem syncedEntry_sent : (dbTableSyncedEntry t entry_id flag).sent = t.sent := by
  unfold dbTableSyncedEntry
  split_ifs <;> rfl

@[simp]
theorem unsyncedEntry_toCore : (dbTableUnsyncedEntry t entry_id flag).toCore = t.toCore := by
  unfold dbTableUnsyncedEntry
  split_ifs <;> rfl

@[simp]
theorem unsyncedEntry_sent : (dbTableUnsyncedEntry t entry_id flag).sent = t.sent := by
  unfold dbTableUnsyncedEntry
  split_ifs <;> rfl

variable (handler : Option (Handler σ.entry_size)) (call : HandlerCall σ.entry_size) (ret : ℤ)

@[simp]
theorem callHandler_toCore : (callHandler t handler call ret).1.toCore = t.toCore := by
  cases handler <;> rfl

@[simp]
theorem callHandler_sent : (callHandler t handler call ret).1.sent = t.sent := by
  cases handler <;> rfl

theorem foldl_syncedEntry (l : List ℕ) (f : ℕ → ℕ) :
    (l.foldl (fun t i => dbTableSyncedEntry t (f i) flag) t).toCore = t.toCore ∧
      (l.foldl (fun t i => dbTableSyncedEntry t (f i) flag) t).calls = t.calls ∧
      (l.foldl (fun t i => dbTableSyncedEntry t (f i) flag) t).sent = t.sent := by
  induction l generalizing t with
  | nil => exact ⟨rfl, rfl, rfl⟩
  | cons i l ih =>
    obtain ⟨h1, h2, h3⟩ := ih (dbTableSyncedEntry t (f i) flag)
    rw [foldl_cons]
    exact ⟨by rw [h1, syncedEntry_toCore], by rw [h2, syncedEntry_calls],
      by rw [h3, syncedEntry_sent]⟩

end

/-! ## What is sent -/

def Env.calls (σ : Schema) (slot_index : ℤ) (msgs : List SyncMsg) : List SyncCall :=
  if env.platform_db_sync.isSome then msgs.map fun m => ⟨m, σ.sync_mode, slot_index⟩ else []

theorem Env.calls_append (l l' : List SyncMsg) :
    env.calls σ slot_index (l ++ l') = env.calls σ slot_index l ++ env.calls σ slot_index l' := by
  unfold Env.calls
  split_ifs
  · rw [map_append]
  · rfl

section

variable (env : Env) (t : Table σ) (op : SyncOp) (start_id num : ℕ) (slot_index : ℤ)

theorem syncData_spec :
    (dbtableSyncData env t op start_id num slot_index).toCore = t.toCore ∧
      (dbtableSyncData env t op start_id num slot_index).calls = t.calls ∧
      (dbtableSyncData env t op start_id num slot_index).sent =
        t.sent ++ env.calls σ slot_index [syncMsg t.toCore op start_id num] := by
  unfold dbtableSyncData Env.calls
  cases env.platform_db_sync with
  | none => simp
  | some db_sync =>
    rw [if_pos (Option.isSome_some)]
    dsimp only
    split_ifs
    · exact foldl_syncedEntry _ _ _ _
    · exact ⟨rfl, rfl, rfl⟩

/-- An entry fits in a message. -/
def Schema.Fits (σ : Schema) : Prop :=
  0 < σ.entry_size ∧ σ.entry_size ≤ maxSendSize - headerSize

def Schema.sendNum (σ : Schema) : ℕ := (maxSendSize - headerSize) / σ.entry_size

def pieces (k start_id num : ℕ) : List (ℕ × ℕ) :=
  (List.range (num / k)).map (fun i => (start_id + i * k, k)) ++ [(start_id + num / k * k, num % k)]

theorem Schema.Fits.sendNum_pos (h : σ.Fits) : 0 < σ.sendNum := div_pos h.2 h.1

theorem syncDataInsert_eq (h : σ.Fits) :
    dbtableSyncDataInsert env t start_id num slot_index =
      .ok ((pieces σ.sendNum start_id num).foldl
        (fun t p => dbtableSyncDataInsertPiece env t p.1 p.2 slot_index) t) := by
  have hp := h.sendNum_pos
  have hne : σ.entry_size ≠ 0 := by have := h.1; omega
  unfold dbtableSyncDataInsert
  rw [if_neg hne]
  change (if σ.sendNum = 0 then _ else _) = _
  rw [if_neg hp.ne']
  dsimp only
  rw [show (maxSendSize - headerSize) / σ.entry_size = σ.sendNum from rfl]
  generalize σ.sendNum = k at hp ⊢
  -- Before the last piece the loop has sent full pieces only, and stands at a multiple of `k`.
  have hf : ∀ q m, m ≤ q → (range m).foldl (fun (acc : Table σ × ℕ) i =>
          (dbtableSyncDataInsertPiece env acc.1 acc.2
            (if i = q then num - q * k else k) slot_index,
            acc.2 + if i = q then num - q * k else k)) (t, start_id) =
        (((range m).map fun i => (start_id + i * k, k)).foldl
          (fun t p => dbtableSyncDataInsertPiece env t p.1 p.2 slot_index) t,
        start_id + m * k) := by
    intro q m hm
    induction m with
    | zero => simp
    | succ m ih =>
      rw [range_succ, foldl_append, ih (by omega), map_append, foldl_append,
        foldl_cons, foldl_nil, if_neg (by omega), map_cons, map_nil,
        foldl_cons, foldl_nil, add_assoc, ← succ_mul]
  have hla : num - num / k * k = num % k := by
    have := div_add_mod' num k
    omega
  rw [Nat.add_sub_cancel, range_succ, foldl_append, hf (num / k) (num / k) le_rfl,
    foldl_cons, foldl_nil, if_pos rfl, hla, pieces, foldl_append, foldl_cons,
    foldl_nil]

theorem syncDataInsert_error (h : ¬ σ.Fits) :
    dbtableSyncDataInsert env t start_id num slot_index = .error .divByZero := by
  unfold dbtableSyncDataInsert
  by_cases h0 : σ.entry_size = 0
  · rw [if_pos h0]
  have hb : (maxSendSize - headerSize) / σ.entry_size = 0 := by
    rw [Nat.div_eq_zero_iff]
    unfold Schema.Fits at h
    omega
  rw [if_neg h0]
  rw [if_pos hb]

theorem foldl_insertPiece_spec (l : List (ℕ × ℕ)) :
    let t' := l.foldl (fun t p => dbtableSyncDataInsertPiece env t p.1 p.2 slot_index) t
    t'.toCore = t.toCore ∧ t'.calls = t.calls ∧
      t'.sent = t.sent ++
        env.calls σ slot_index (l.map fun p => syncMsg t.toCore .itemAdd p.1 p.2) := by
  induction l generalizing t with
  | nil =>
    refine ⟨rfl, rfl, ?_⟩
    unfold Env.calls
    split_ifs <;> simp
  | cons p l ih =>
    obtain ⟨h1, h2, h3⟩ := syncData_spec env t .itemAdd p.1 p.2 slot_index
    obtain ⟨ih1, ih2, ih3⟩ := ih (dbtableSyncDataInsertPiece env t p.1 p.2 slot_index)
    refine ⟨ih1.trans h1, ih2.trans h2, ?_⟩
    rw [foldl_cons, ih3, dbtableSyncDataInsertPiece, h3, h1, append_assoc,
      ← Env.calls_append, map_cons, singleton_append]

end

end Chanos.Database

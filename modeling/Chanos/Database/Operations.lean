import Chanos.Database.Entry

/-!
# The operations of the indexes

The functions that an application calls on a hash, sequence or array index of a table. An index is
named by its position in `index_list`; a position that holds no index of the right kind stands for
the `NULL` handle.
-/

namespace Chanos.Database

open Lib Function

variable {σ : Schema}

def returnCodeBadInput : ℤ := 9

def returnCodeKeyOverlap : ℤ := 6

def returnCodeEntryNotExist : ℤ := 13

def Schema.hashIndex (σ : Schema) (i : ℕ) : Option (HashIndex σ.entry_size) :=
  match σ.index_list[i]? with
  | some (.hash h) => some h
  | _ => none

def Schema.sequenceIndex (σ : Schema) (i : ℕ) : Option (SequenceIndex σ.entry_size) :=
  match σ.index_list[i]? with
  | some (.sequence s) => some s
  | _ => none

def Schema.isArray (σ : Schema) (i : ℕ) : Bool :=
  match σ.index_list[i]? with
  | some .array => true
  | _ => false

def Core.setChain (c : Core σ) (i b : ℕ) (l : List ℕ) : Core σ :=
  c.setIndex i (update (c.chains i) b l)

theorem Core.setChain_chains_self (c : Core σ) (i b : ℕ) (l : List ℕ) :
    (c.setChain i b l).chains i = update (c.chains i) b l :=
  update_self ..

theorem Core.setChain_chains_of_ne (c : Core σ) {i j : ℕ} (b : ℕ) (l : List ℕ) (h : j ≠ i) :
    (c.setChain i b l).chains j = c.chains j :=
  update_of_ne h ..

variable (env : Env) (t : Table σ)

def updateVia (i entry_id : ℕ) (data old : σ.Data) : Table σ :=
  let t := (dbTableUpdateEntry env t entry_id data (some i) true).1
  let r := callHandler t σ.handle_update (.handleUpdate data old) 0
  if r.2 = 0 then dbTableSyncedEntry r.1 entry_id .hwSwSynced
  else dbTableUnsyncedEntry r.1 entry_id .hwSwSynced

def insertVia (i entry_id : ℕ) (data : σ.Data) (clear : Bool) :
    Except Fault (Table σ) := do
  let t ← dbTableInsertEntry env t entry_id data (some i) true
  let r := callHandler t σ.handle_insert (.handleInsert data) 0
  return if r.2 = 0 then dbTableSyncedEntry r.1 entry_id .hwSwSynced
    else if clear then dbTableUnsyncedEntry r.1 entry_id .hwSwSynced
    else r.1

def deleteVia (i entry_id : ℕ) (buf : σ.Data) : Table σ × σ.Data :=
  let t := dbTableFreeEntryIndex env t entry_id (some i)
  let data := (dbTableGetEntry t.toCore entry_id).getD buf
  let r := callHandler t σ.handle_delete (.handleDelete data) 0
  (dbTableDeleteEntry env r.1 entry_id true, data)

def chainInsert (i b : ℕ) (data : σ.Data) (found : Option (ℕ × σ.Data))
    (chain : ℕ → List ℕ) : Except Fault (Table σ × ℤ) :=
  match found with
  | some (entry_id, cmpdata) => .ok (updateVia env t i entry_id data cmpdata, 0)
  | none =>
    match osalTableEntryIdAlloc t.toCore with
    | none => .ok (t, -1)
    | some (entry_id, c) => do
      let t ← insertVia env
        { t with toCore := c.setChain i b (chain entry_id) } i entry_id data false
      return (t, 0)

def chainDelete (i b : ℕ) (equal : σ.Data → Bool) (buf : σ.Data) :
    Table σ × ℤ × Option σ.Data :=
  match scan (dbTableGetEntry t.toCore) equal buf (t.chains i b) with
  | none => (t, 0, none)
  | some (entry_id, cmpdata) =>
    let chain := unlink (dbTableGetEntry t.toCore) equal buf (t.chains i b)
    let r := deleteVia env { t with toCore := t.toCore.setChain i b chain } i entry_id cmpdata
    (r.1, 0, some r.2)

section

variable (env : Env) (t : Table σ) (i : ℕ) (data : σ.Data)

def searchResult {n : ℕ} : Option (ℕ × Bytes n) → Except ℤ (Bytes n)
  | none => .error returnCodeEntryNotExist
  | some (_, x) => .ok x

/-- `dbtable_hash_search`: the data of the first node that compares equal, or that `compFunc`
accepts when it is given; otherwise the code it returns. -/
def dbtableHashSearch (compFunc : Option (σ.Data → σ.Data → Bool)) : Except ℤ σ.Data :=
  match σ.hashIndex i with
  | none => .error returnCodeBadInput
  | some h =>
    if h.hash_key.isNone then .error returnCodeEntryNotExist
    else
      match h.bucket data with
      | none => .error returnCodeKeyOverlap
      | some b =>
        let accept x := h.hash_cmp data x || compFunc.any fun f => f data x
        searchResult
          (scan (dbTableGetEntry t.toCore) accept (env.malloc _ .search) (t.chains i b))

def insertStop (h : HashIndex σ.entry_size) (list_prev : Option (σ.Data → σ.Data → Bool))
    (x : σ.Data) : Bool :=
  h.hash_cmp data x || list_prev.any fun f => f data x

def insertFound (h : HashIndex σ.entry_size) (b : ℕ)
    (list_prev : Option (σ.Data → σ.Data → Bool)) : Option (ℕ × σ.Data) :=
  (scan (dbTableGetEntry t.toCore) (insertStop data h list_prev) (env.malloc _ .caller)
    (t.chains i b)).filter fun r => h.hash_cmp data r.2

def dbtableHashInsertSeq (list_prev : Option (σ.Data → σ.Data → Bool)) :
    Except Fault (Table σ × ℤ) :=
  match σ.hashIndex i with
  | none => .ok (t, -1)
  | some h =>
    match h.bucket data with
    | none => .ok (t, -1)
    | some b =>
      chainInsert env t i b data (insertFound env t i data h b list_prev) fun entry_id =>
        link (dbTableGetEntry t.toCore) (insertStop data h list_prev) entry_id
          (env.malloc _ .caller) (t.chains i b)

def dbtableHashInsert : Except Fault (Table σ × ℤ) := dbtableHashInsertSeq env t i data none

def dbtableHashDelete : Table σ × ℤ × Option σ.Data :=
  match σ.hashIndex i with
  | none => (t, -1, none)
  | some h =>
    if h.hash_key.isNone then (t, 0, none)
    else
      match h.bucket data with
      | none => (t, -1, none)
      | some b => chainDelete env t i b (fun x => h.hash_cmp x data) (env.malloc _ .caller)

def dbtableHashUpdate : Except Fault (Table σ × ℤ) :=
  match dbtableHashSearch env t i data none with
  | .error _ => .ok (t, -1)
  | .ok _ => dbtableHashInsert env t i data

def dbtableHashCount : ℤ :=
  match σ.hashIndex i with
  | none => -1
  | some _ => signed32 t.entry_use_num

end

section

variable (env : Env) (t : Table σ) (i sequence_index : ℕ) (data : σ.Data)

def dbtableSequenceInsert : Except Fault (Table σ × ℤ) :=
  match σ.sequenceIndex i with
  | none => .ok (t, -1)
  | some s =>
    match s.bucketAt sequence_index with
    | none => .ok (t, -1)
    | some b =>
      let found := scan (dbTableGetEntry t.toCore) (s.sequence_cmp data) (env.malloc _ .caller)
        (t.chains i b)
      chainInsert env t i b data found fun entry_id => t.chains i b ++ [entry_id]

def dbtableSequenceSearch : Option σ.Data := do
  let s ← σ.sequenceIndex i
  let b ← s.bucketAt sequence_index
  (t.chains i b).findSome? fun entry_id =>
    (dbTableGetEntry t.toCore entry_id).filter fun x => s.sequence_cmp x data

/-- The test of the walk and the buffer it reads into. Without a `ret_data` the entries are read over
`data` itself, so that each is compared with itself. -/
def sequenceDeleteWalk (s : SequenceIndex σ.entry_size) (ret_data : Option σ.Data) :
    (σ.Data → Bool) × σ.Data :=
  match ret_data with
  | none => (fun x => s.sequence_cmp x x, data)
  | some buf => (s.sequence_cmp data, buf)

def dbtableSequenceDelete (ret_data : Option σ.Data) : Table σ × ℤ × Option σ.Data :=
  match σ.sequenceIndex i with
  | none => (t, -1, none)
  | some s =>
    match s.bucketAt sequence_index with
    | none => (t, -1, none)
    | some b =>
      let walk := sequenceDeleteWalk data s ret_data
      chainDelete env t i b walk.1 walk.2

def dbtableSequenceUpdate : Except Fault (Table σ × ℤ) :=
  match dbtableSequenceSearch t i sequence_index data with
  | none => .ok (t, -1)
  | some _ => dbtableSequenceInsert env t i sequence_index data

end

section

variable (env : Env) (t : Table σ) (i : ℕ)

def arrayInsert (data : σ.Data) (alloc : Option (ℕ × Core σ)) : Except Fault (Table σ × ℤ) :=
  match alloc with
  | none => .ok (t, -1)
  | some (entry_id, c) => do
    let t ← insertVia env { t with toCore := c } i entry_id data true
    return (t, 0)

def dbtableArrayInsert (data : σ.Data) : Except Fault (Table σ × ℤ) :=
  if σ.isArray i then arrayInsert env t i data (osalTableEntryIdAlloc t.toCore) else .ok (t, -1)

def dbtableArrayInsertByid (array_index : ℕ) (data : σ.Data) : Except Fault (Table σ × ℤ) :=
  if σ.isArray i then
    arrayInsert env t i data
      ((dbTableInternalAlloc t.toCore array_index).map fun c => (array_index, c))
  else .ok (t, -1)

def dbtableArrayInsertAfter (data : σ.Data) (start_id : ℕ) : Except Fault (Table σ × ℤ) :=
  if σ.isArray i then arrayInsert env t i data (dbTableInternalAllocAfter t.toCore start_id)
  else .ok (t, -1)

def dbtableArrayDelete (array_index : ℕ) : Table σ × ℤ × Option σ.Data :=
  if σ.isArray i then
    match dbTableGetEntry t.toCore array_index with
    | none => (t, 0, none)
    | some old =>
      let t := dbTableFreeEntryIndex env t array_index (some i)
      let r := callHandler t σ.handle_delete (.handleDelete old) 0
      (dbTableDeleteEntry env r.1 array_index true, 0, some old)
  else (t, -1, none)

def dbtableArrayUpdate (array_index : ℕ) (data : σ.Data) : Table σ × ℤ :=
  if σ.isArray i then
    match dbTableGetEntry t.toCore array_index with
    | none => (t, -1)
    | some old_data => (updateVia env t i array_index data old_data, 0)
  else (t, -1)

end

inductive LocalOp (n : ℕ)
  | hashInsert (i : ℕ) (data : Bytes n)
  | hashInsertSeq (i : ℕ) (data : Bytes n) (list_prev : Option (Bytes n → Bytes n → Bool))
  | hashDelete (i : ℕ) (data : Bytes n)
  | hashUpdate (i : ℕ) (data : Bytes n)
  | sequenceInsert (i sequence_index : ℕ) (data : Bytes n)
  | sequenceDelete (i sequence_index : ℕ) (data : Bytes n) (ret_data : Option (Bytes n))
  | sequenceUpdate (i sequence_index : ℕ) (data : Bytes n)
  | arrayInsert (i : ℕ) (data : Bytes n)
  | arrayInsertByid (i array_index : ℕ) (data : Bytes n)
  | arrayInsertAfter (i : ℕ) (data : Bytes n) (start_id : ℕ)
  | arrayDelete (i array_index : ℕ)
  | arrayUpdate (i array_index : ℕ) (data : Bytes n)

def LocalOp.run : LocalOp σ.entry_size → Except Fault (Table σ × ℤ)
  | hashInsert i data => dbtableHashInsert env t i data
  | hashInsertSeq i data list_prev => dbtableHashInsertSeq env t i data list_prev
  | hashDelete i data =>
    let r := dbtableHashDelete env t i data
    .ok (r.1, r.2.1)
  | hashUpdate i data => dbtableHashUpdate env t i data
  | sequenceInsert i sequence_index data => dbtableSequenceInsert env t i sequence_index data
  | sequenceDelete i sequence_index data ret_data =>
    let r := dbtableSequenceDelete env t i sequence_index data ret_data
    .ok (r.1, r.2.1)
  | sequenceUpdate i sequence_index data => dbtableSequenceUpdate env t i sequence_index data
  | arrayInsert i data => dbtableArrayInsert env t i data
  | arrayInsertByid i array_index data => dbtableArrayInsertByid env t i array_index data
  | arrayInsertAfter i data start_id => dbtableArrayInsertAfter env t i data start_id
  | arrayDelete i array_index =>
    let r := dbtableArrayDelete env t i array_index
    .ok (r.1, r.2.1)
  | arrayUpdate i array_index data => .ok (dbtableArrayUpdate env t i array_index data)

def LocalOp.after (op : LocalOp σ.entry_size) : Table σ :=
  match op.run env t with
  | .ok p => p.1
  | .error _ => t

end Chanos.Database

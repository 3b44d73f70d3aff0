import Chanos.Database.LocalStep

/-!
# Receiving messages

`dbtable_recv` takes a buffer with one or more messages. It converts each header in place, looks up
the table of that name, and applies the entries one by one, converting and completing them in place
too.
-/

namespace Chanos.Database

open Lib SyncHeader

structure AnyTable where
  schema : Schema
  table : Table schema

/-- The tables of a database, `cfg_db`, in the order in which they were registered, and the number
of calls of `platform_db_sync_complete_handler` made so far. -/
structure Registry where
  tables : List AnyTable
  completions : ℕ

def dbGet (reg : Registry) (name : Bytes 32) : Option ℕ :=
  reg.tables.findIdx? fun a => strEq name.toList a.schema.name.toList

inductive SizeT
  | bits32
  | bits64
  deriving DecidableEq

def SizeT.modulus : SizeT → ℕ
  | bits32 => 2 ^ 32
  | bits64 => 2 ^ 64

structure Host where
  endian : Endian
  size_t : SizeT
  complete_handler : Bool

/-! ## One entry of a message -/

variable {σ : Schema}

def Schema.ntoh (σ : Schema) (data : σ.Data) : σ.Data :=
  match σ.entry_ntoh with
  | none => data
  | some ntoh => ntoh data

inductive EntryOutcome (σ : Schema)
  | next (t : Table σ) (op_ret : ℤ) (written : Option σ.Data)
  | ret (t : Table σ) (code : ℤ)

def callDeleteHandler (t : Table σ) (handler : Option (Handler σ.entry_size))
    (call : σ.Data → HandlerCall σ.entry_size) (data : Except Fault σ.Data) (op_ret : ℤ) :
    Except Fault (Table σ × ℤ) :=
  match handler with
  | none => .ok (t, op_ret)
  | some f => do
    let data ← data
    return callHandler t (some f) (call data) op_ret

variable (env : Env)

def recvUpdate (t : Table σ) (entry_id : ℕ) (data predata : σ.Data) (clear : Bool) :
    EntryOutcome σ :=
  let data := Bytes.splice σ.sync_size data predata
  let t := (dbTableUpdateEntry env t entry_id data none false).1
  let r := callHandler t σ.handle_update (.handleUpdate data predata) 0
  let r := callHandler r.1 σ.app_handle_update (.appHandleUpdate data predata) r.2
  let t :=
    if r.2 = 0 then dbTableSyncedEntry r.1 entry_id .hwSwSynced
    else if clear then dbTableUnsyncedEntry r.1 entry_id .hwSwSynced
    else r.1
  .next t r.2 (some data)

def recvInsert (t : Table σ) (entry_id : ℕ) (data : σ.Data) :
    Except Fault (EntryOutcome σ) := do
  let t ← dbTableInsertEntry env t entry_id data none false
  let r := callHandler t σ.handle_insert (.handleInsert data) 0
  let r := callHandler r.1 σ.app_handle_update (.appHandleUpdate data data) r.2
  let t :=
    if r.2 = 0 then dbTableSyncedEntry r.1 entry_id .hwSwSynced
    else dbTableUnsyncedEntry r.1 entry_id .hwSwSynced
  return .next t r.2 (some data)

def recvDelete (t : Table σ) (entry_id : ℕ) (data : Except Fault σ.Data)
    (written : Option σ.Data) : Except Fault (EntryOutcome σ) := do
  let r ← callDeleteHandler t σ.handle_delete .handleDelete data 0
  let r ← callDeleteHandler r.1 σ.app_handle_delete .appHandleDelete data r.2
  let t := dbTableSyncedEntry r.1 entry_id .hwSwSynced
  let t := dbTableFreeEntryIndex env t entry_id none
  return .next (dbTableDeleteEntry env t entry_id false) r.2 written

def recvAdd (t : Table σ) (entry_id : ℕ) (data : Except Fault σ.Data) :
    Except Fault (EntryOutcome σ) :=
  match dbTableInternalAlloc t.toCore entry_id with
  | some c => do
    let data ← data
    recvInsert env { t with toCore := c } entry_id data
  | none =>
    match dbTableGetEntry t.toCore entry_id with
    | none => .ok (.ret t (-1))
    | some predata => do
      let data ← data
      return recvUpdate env t entry_id data predata false

def recvItemUpdate (t : Table σ) (entry_id : ℕ) (data : Except Fault σ.Data) :
    Except Fault (EntryOutcome σ) :=
  match dbTableGetEntry t.toCore entry_id with
  | none => .ok (.ret t (-1))
  | some predata => do
    let data ← data
    return recvUpdate env t entry_id data predata true

def Schema.converted (σ : Schema) (data : Except Fault σ.Data) : Except Fault (Option σ.Data) :=
  if σ.entry_ntoh.isSome then data.map fun d => some (σ.ntoh d) else .ok none

def recvEntry (t : Table σ) (op : SyncOp) (entry_id : ℕ) (data : Except Fault σ.Data)
    (op_ret : ℤ) : Except Fault (EntryOutcome σ) := do
  let written ← σ.converted data
  let data := data.map σ.ntoh
  match op with
  | .itemAdd => recvAdd env t entry_id data
  | .tableAdd => recvAdd env t entry_id data
  | .itemDel => recvDelete env t entry_id data written
  | .itemUpdate => recvItemUpdate env t entry_id data
  | .tblSync | .complete | .other _ => .ok (.next t op_ret written)

/-! ## The machine -/

/-- The loop over the entries of a message: the table, the number of entries done, and where in the
buffer the last one was read. -/
structure RecvFrame where
  db : ℕ
  i : ℕ
  data : ℤ

structure RecvState where
  buf : List UInt8
  buffer : ℤ
  handle_len : ℤ
  op_ret : ℤ
  frame : Option RecvFrame

inductive RecvOutcome
  | next (reg : Registry) (s : RecvState)
  | ret (reg : Registry) (code : ℤ)
  | fault (f : Fault)

def RecvOutcome.registry : RecvOutcome → Option Registry
  | next reg _ => some reg
  | ret reg _ => some reg
  | fault _ => none

variable (host : Host)

def totalLenShort (h : SyncHeader) : Bool :=
  let total := (signed32 h.total_len % host.size_t.modulus).toNat
  let need := ((h.entry_len.toNat * h.entry_num.toNat) % 2 ^ 32 + headerSize) % host.size_t.modulus
  total < need

def recvMessage (reg : Registry) (s : RecvState) (h : SyncHeader) : RecvOutcome :=
  if h.op = SyncOp.complete.code then
    .ret { reg with completions := reg.completions + host.complete_handler.toNat } 0
  else
    match dbGet reg h.name with
    | none => .ret reg s.op_ret
    | some db =>
      if totalLenShort host h then .ret reg s.op_ret
      else
        .next reg
          { s with
            buf := store s.buf s.buffer (h.encode host.endian)
            handle_len := wrap32 (s.handle_len + signed32 h.total_len)
            frame := some ⟨db, 0, s.buffer + headerSize⟩ }

def recvHeader (reg : Registry) (s : RecvState) : RecvOutcome :=
  if (s.buf.length : ℤ) ≤ s.handle_len then .ret reg 0
  else
    match load s.buf s.buffer headerSize with
    | none => .fault .outOfBounds
    | some b =>
      recvMessage host reg s
        (npdDbtableHeaderNtoh host.endian (decode host.endian b))

def access (buf : List UInt8) (off : ℤ) (n : ℕ) : Except Fault (Bytes n) :=
  match load buf off n with
  | none => .error .outOfBounds
  | some d => .ok d

def recvAfter (reg : Registry) (s : RecvState) (f : RecvFrame) (a : AnyTable) (data : ℤ) :
    Except Fault (EntryOutcome a.schema) → RecvOutcome
  | .error e => .fault e
  | .ok (.ret t code) => .ret { reg with tables := reg.tables.set f.db ⟨a.schema, t⟩ } code
  | .ok (.next t op_ret written) =>
    .next { reg with tables := reg.tables.set f.db ⟨a.schema, t⟩ }
      { s with
        buf := match written with
          | none => s.buf
          | some d => store s.buf data d
        op_ret := op_ret
        frame := some ⟨f.db, f.i + 1, data⟩ }

def switchOp {n : ℕ} (host : Host) (s : RecvState) (h : SyncHeader) (data : ℤ) :
    Except Fault (Option (Bytes n)) → SyncOp
  | .ok (some d) =>
    match load (store s.buf data d) s.buffer headerSize with
    | some b => .ofCode (decode host.endian b).op
    | none => .ofCode h.op
  | _ => .ofCode h.op

variable (env : Env)

def recvNth (reg : Registry) (s : RecvState) (f : RecvFrame)
    (a : AnyTable) (h : SyncHeader) : RecvOutcome :=
  let entry_id := (h.start_index.toNat + f.i) % 2 ^ 32
  let data := if f.i = 0 then f.data else f.data + signed32 h.entry_len
  if a.schema.entry_num ≤ entry_id then .ret reg (-1)
  else
    let entry := access s.buf data a.schema.entry_size
    let op := switchOp host s h data (a.schema.converted entry)
    recvAfter reg s f a data (recvEntry env a.table op entry_id entry s.op_ret)

def recvFrame (reg : Registry) (s : RecvState) (f : RecvFrame) :
    RecvOutcome :=
  match load s.buf s.buffer headerSize, reg.tables[f.db]? with
  | some b, some a =>
    let h := decode host.endian b
    if h.entry_num.toNat ≤ f.i then .next reg { s with frame := none, buffer := s.handle_len }
    else recvNth host env reg s f a h
  | _, _ => .fault .outOfBounds

def recvStep (reg : Registry) (s : RecvState) : RecvOutcome :=
  match s.frame with
  | none => recvHeader host reg s
  | some f => recvFrame host env reg s f

def recvRun (host : Host) (env : Env) :
    ℕ → Registry → RecvState → Option (Except Fault (Registry × ℤ))
  | 0, _, _ => none
  | fuel + 1, reg, s =>
    match recvStep host env reg s with
    | .next reg s => recvRun host env fuel reg s
    | .ret reg code => some (.ok (reg, code))
    | .fault f => some (.error f)

def RecvState.init (buf : List UInt8) : RecvState := ⟨buf, 0, 0, -1, none⟩

/-- `dbtable_recv` on a buffer of `buf.length` bytes: the tables and the return value, or a fault,
when it comes to an end within `fuel` rounds. -/
def dbtableRecv (fuel : ℕ) (reg : Registry) (buf : List UInt8) :
    Option (Except Fault (Registry × ℤ)) :=
  if buf.length < headerSize then some (.ok (reg, -1))
  else recvRun host env fuel reg (.init buf)

end Chanos.Database

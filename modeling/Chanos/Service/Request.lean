import Chanos.Database.Operations
import Chanos.Service.Packet

/-!
# The requests to the database service

The service reads a packet from a local socket, looks up the table and the index that it names, runs
the operation that it asks for and writes a response. The operation is taken from a table of
functions by the type that the index has on record.
-/

namespace Chanos.Service

open Lib Database

inductive IndexType
  | hash
  | seq
  | array
  deriving DecidableEq

inductive IndexRef (σ : Schema)
  | own (i : Fin σ.index_list.length)
  | cmp

def IndexRef.indexType {σ : Schema} : IndexRef σ → IndexType
  | own i =>
    match σ.index_list.get i with
    | .hash _ => .hash
    | .sequence _ => .seq
    | .array => .array
  | cmp => .hash

structure ServiceTable where
  schema : Schema
  table : Table schema
  index_list : List (CString × IndexRef schema)

structure ServiceDb where
  tables : List ServiceTable

inductive ReturnCode
  | ok
  | dbNotExist
  | tableNameLenErr
  | badIndex
  | indexNameLenErr
  | badRequestType
  | indexNotExist
  | memAllocErr
  deriving DecidableEq

open ReturnCode

def ReturnCode.code : ReturnCode → UInt32
  | ok => 0
  | dbNotExist => 1
  | tableNameLenErr => 3
  | badIndex => 4
  | indexNameLenErr => 5
  | badRequestType => 7
  | indexNotExist => 8
  | memAllocErr => 10

inductive RequestType
  | insert
  | delete
  | search
  | update
  | traver
  | count
  | head
  | next
  | showAll
  | max
  | indexCreate
  | other
  deriving DecidableEq

def RequestType.ofCode (c : UInt32) : RequestType :=
  ([insert, delete, search, update, traver, count, head, next, showAll, max, indexCreate][c.toNat]?).getD
    other

variable (s : ServiceDb)

def ServiceDb.dbGet (name : CString) : Option (ℕ × ServiceTable) :=
  (s.tables.zipIdx.find? fun p => strEq name.1 p.1.schema.name.toList).map fun p => (p.2, p.1)

def ServiceDb.set (s : ServiceDb) (k : ℕ) (a : ServiceTable) : ServiceDb := ⟨s.tables.set k a⟩

structure Found where
  k : ℕ
  table : ServiceTable
  ref : IndexRef table.schema

def dbtableIndexGetByName (db_name table_name index_name : CString) :
    Except ReturnCode Found :=
  if maxNameLen ≤ db_name.length then .error .tableNameLenErr
  else if maxNameLen ≤ table_name.length then .error .tableNameLenErr
  else if maxNameLen ≤ index_name.length then .error .indexNameLenErr
  else
    match s.dbGet table_name with
    | none => .error .dbNotExist
    | some (k, a) =>
      match a.index_list.find? fun p => p.1 = index_name with
      | none => .error .indexNotExist
      | some p => .ok ⟨k, a, p.2⟩

/-! ## The operations -/

section

variable {σ : Schema}

structure Answer (σ : Schema) where
  table : Table σ
  ret : ℤ
  entries : List (List UInt8)
  entry_size : ℕ

def IndexRef.asHash : IndexRef σ → Except Fault ℕ
  | own i => .ok i
  | cmp => .error .wrongIndexType

def requestEntry (σ : Schema) (mem : List UInt8) : Except Fault σ.Data := orFault (load mem 0 _)

variable (env : Env) (t : Table σ) (ref : IndexRef σ) (mem : List UInt8)

def dbtableRequestHashInsert :
    Except Fault (Answer σ) := do
  let i ← ref.asHash
  let data ← requestEntry σ mem
  let r ← dbtableHashInsert env t i data
  .ok ⟨r.1, r.2, [], 0⟩

def dbtableRequestHashUpdate :
    Except Fault (Answer σ) :=
  dbtableRequestHashInsert env t ref mem

def dbtableRequestHashDelete :
    Except Fault (Answer σ) := do
  let i ← ref.asHash
  let data ← requestEntry σ mem
  let r := dbtableHashDelete env t i data
  .ok ⟨r.1, r.2.1, [(r.2.2.getD (env.malloc _ .caller)).toList], σ.entry_size⟩

def searchAnswer (i : ℕ) (data : σ.Data) : Answer σ :=
  match dbtableHashSearch env t i data none with
  | .ok found => ⟨t, 0, [found.toList], σ.entry_size⟩
  | .error code => ⟨t, code, [(env.malloc σ.entry_size .caller).toList], σ.entry_size⟩

def dbtableRequestHashSearch :
    Except Fault (Answer σ) := do
  let i ← ref.asHash
  let data ← requestEntry σ mem
  .ok (searchAnswer env t i data)

def existingEntries : List (List UInt8) :=
  (List.range σ.entry_num).filterMap fun id => (dbTableGetEntry t.toCore id).map List.Vector.toList

def dbtableRequestHashTraversal : Answer σ := ⟨t, 0, existingEntries t, σ.entry_size⟩

def dbtableRequestHashCount (e : Endian) (t : Table σ) : Answer σ :=
  ⟨t, 0, [Word.toBytes e t.entry_use_num], 4⟩

def hashDbtableRequestFunc (e : Endian) (env : Env) (t : Table σ) (ref : IndexRef σ)
    (mem : List UInt8) : RequestType → Option (Except Fault (Answer σ))
  | .insert => some (dbtableRequestHashInsert env t ref mem)
  | .delete => some (dbtableRequestHashDelete env t ref mem)
  | .search => some (dbtableRequestHashSearch env t ref mem)
  | .update => some (dbtableRequestHashUpdate env t ref mem)
  | .traver => some (.ok (dbtableRequestHashTraversal t))
  | .count => some (.ok (dbtableRequestHashCount e t))
  | _ => none

end

/-! ## A request -/

def dbtableCreateCmpIndex (a : ServiceTable) (index_name : CString) : ServiceTable :=
  { a with index_list := (index_name, .cmp) :: a.index_list }

def dbtableRequestCommonIndexCreate (table_name index_name : CString) :
    ServiceDb × ReturnCode :=
  match s.dbGet table_name with
  | none => (s, .dbNotExist)
  | some (k, a) =>
    if index_name.length = 0 ∨ maxNameLen ≤ index_name.length then (s, .badIndex)
    else (s.set k (dbtableCreateCmpIndex a index_name), .ok)

def emptyResponse (r : DbtableRequest) (table_name : CString) (code : UInt32) : DbtableResponse where
  db_name := none
  table_name := some table_name
  flag := 0
  response_id := r.request_id
  response_type := r.request_type
  return_code := code
  entry_count := 0
  entry_size := 0
  response_entry := []

def answerResponse {σ : Schema} (r : DbtableRequest) (table_name : CString) (a : Answer σ) :
    DbtableResponse :=
  { emptyResponse r table_name (UInt32.ofNat (a.ret % 2 ^ 32).toNat) with
    entry_count := UInt32.ofNat a.entries.length
    entry_size := UInt32.ofNat a.entry_size
    response_entry := a.entries }

variable (e : Endian) (env : Env) (s : ServiceDb)

def foundRequest (r : DbtableRequest) (table_name : CString)
    (f : Found) : Except Fault (ServiceDb × DbtableResponse) :=
  match RequestType.ofCode r.request_type with
  | .other => .ok (s, emptyResponse r table_name badRequestType.code)
  | type =>
    match f.ref.indexType with
    | .hash =>
      match hashDbtableRequestFunc e env f.table.table f.ref r.request_entry_data type with
      | none => .ok (s, emptyResponse r table_name badRequestType.code)
      | some run => do
        let a ← run
        .ok (s.set f.k { f.table with table := a.table }, answerResponse r table_name a)
    | _ => .ok (s, emptyResponse r table_name badIndex.code)

def dbtableRequest (r : DbtableRequest) :
    Except Fault (ServiceDb × Option DbtableResponse) :=
  match r.db_name, r.table_name, r.index_name with
  | some db_name, some table_name, some index_name =>
    if RequestType.ofCode r.request_type = .indexCreate then
      let c := dbtableRequestCommonIndexCreate s table_name index_name
      .ok (c.1, some (emptyResponse r table_name c.2.code))
    else
      match dbtableIndexGetByName s db_name table_name index_name with
      | .error code => .ok (s, some (emptyResponse r table_name code.code))
      | .ok f => do
        let p ← foundRequest e env s r table_name f
        .ok (p.1, some p.2)
  | _, _, _ => .ok (s, none)

/-! ## A packet -/

def maxDbPacketLen : ℕ := 20000

def dumpRequestPacket (debug : Bool) (buf : List UInt8) : Except Fault Unit := do
  let size ← orFault (wordAt e buf 108)
  if debug then
    let _ ← orFault (cstringAt buf 0)
    let _ ← orFault (cstringAt buf 31)
    let _ ← orFault (cstringAt buf 76)
    let _ ← orFault (load buf 112 (signed32 size).toNat)
    .ok ()
  else .ok ()

def sendResponse (r : DbtableResponse) :
    Except Fault (ServiceDb × Option (List UInt8)) := do
  let p ← osalDbTableResponseGeneratePacket e r
  match p with
  | none => .ok (s, none)
  | some p => if p.length ≤ maxDbPacketLen then .ok (s, some p) else .error .outOfBounds

def parseErrorResponse : DbtableResponse where
  db_name := none
  table_name := none
  flag := 0
  response_id := 0xFFFFFFFF
  response_type := 0
  return_code := memAllocErr.code
  entry_count := 0
  entry_size := 0
  response_entry := []

def answerRequest (r : DbtableRequest) :
    Except Fault (ServiceDb × Option (List UInt8)) := do
  let p ← dbtableRequest e env s r
  match p.2 with
  | none => .ok (p.1, none)
  | some response => sendResponse e p.1 response

/-- `osal_db_local_service_read_handler` on the bytes that were received: the database and what is
written to the socket. -/
def osalDbLocalServiceReadHandler (debug : Bool) (s : ServiceDb)
    (buf : List UInt8) : Except Fault (ServiceDb × Option (List UInt8)) :=
  if buf.length = 0 then .ok (s, none)
  else do
    dumpRequestPacket e debug buf
    let request ← osalDbTableRequestParsePacket e buf
    match request with
    | none => sendResponse e s parseErrorResponse
    | some r => answerRequest e env s r

end Chanos.Service

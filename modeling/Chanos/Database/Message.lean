import Chanos.Lib.Words
import Mathlib.Data.List.TakeWhile

/-!
# The synchronisation messages

`npd_sync_msg_header_t` is the 68-byte header of every message: nine 32-bit words around the name of
the table, which the compiler pads to 32 bytes. The entries follow, one after the other.
-/

namespace Chanos.Database

open Lib List Word

inductive SyncOp
  | itemAdd
  | itemDel
  | itemUpdate
  | tableAdd
  | tblSync
  | complete
  | other (code : UInt32)
  deriving DecidableEq

def SyncOp.code : SyncOp → UInt32
  | itemAdd => 0
  | itemDel => 1
  | itemUpdate => 2
  | tableAdd => 3
  | tblSync => 4
  | complete => 5
  | other c => c

def SyncOp.ofCode (c : UInt32) : SyncOp :=
  if c = 0 then itemAdd
  else if c = 1 then itemDel
  else if c = 2 then itemUpdate
  else if c = 3 then tableAdd
  else if c = 4 then tblSync
  else if c = 5 then complete
  else other c

def syncTypeEntry : UInt32 := 1

def headerSize : ℕ := 68

structure SyncHeader where
  version : UInt32
  type : UInt32
  op : UInt32
  tbl_id : UInt32
  name : Bytes 32
  total_len : UInt32
  entry_len : UInt32
  sync_len : UInt32
  start_index : UInt32
  entry_num : UInt32
  deriving DecidableEq

namespace SyncHeader

variable (e : Endian)

def fields (h : SyncHeader) : List (List UInt8) :=
  [toBytes e h.version, toBytes e h.type, toBytes e h.op, toBytes e h.tbl_id,
    h.name.toList, toBytes e h.total_len, toBytes e h.entry_len,
    toBytes e h.sync_len, toBytes e h.start_index, toBytes e h.entry_num]

def layout : List ℕ := [4, 4, 4, 4, 32, 4, 4, 4, 4, 4]

theorem map_length_fields (h : SyncHeader) : (h.fields e).map length = layout := by
  simp only [fields, layout, map_cons, map_nil, length_toBytes, Vector.toList_length]

def encode (h : SyncHeader) : Bytes headerSize :=
  ⟨(h.fields e).flatten, by
    rw [length_flatten, map_length_fields]
    rfl⟩

def decode (b : Bytes headerSize) : SyncHeader :=
  match layout.splitLengths b.toList with
  | [v, t, o, i, nm, tl, el, sl, si, en] =>
    { version := ofBytes e v, type := ofBytes e t, op := ofBytes e o,
      tbl_id := ofBytes e i,
      name := Bytes.ofList 32 nm,
      total_len := ofBytes e tl, entry_len := ofBytes e el,
      sync_len := ofBytes e sl, start_index := ofBytes e si,
      entry_num := ofBytes e en }
  | _ => ⟨0, 0, 0, 0, Bytes.zero 32, 0, 0, 0, 0, 0⟩

def npdDbtableHeaderHton (h : SyncHeader) : SyncHeader :=
  { version := htonl e h.version, type := htonl e h.type, op := htonl e h.op,
    tbl_id := htonl e h.tbl_id, name := h.name, total_len := htonl e h.total_len,
    entry_len := htonl e h.entry_len, sync_len := htonl e h.sync_len,
    start_index := htonl e h.start_index, entry_num := htonl e h.entry_num }

def npdDbtableHeaderNtoh (h : SyncHeader) : SyncHeader := npdDbtableHeaderHton e h

theorem decode_encode' (e e' : Endian) (h : SyncHeader) :
    decode e (h.encode e') =
      { version := ofBytes e (toBytes e' h.version),
        type := ofBytes e (toBytes e' h.type),
        op := ofBytes e (toBytes e' h.op),
        tbl_id := ofBytes e (toBytes e' h.tbl_id), name := h.name,
        total_len := ofBytes e (toBytes e' h.total_len),
        entry_len := ofBytes e (toBytes e' h.entry_len),
        sync_len := ofBytes e (toBytes e' h.sync_len),
        start_index := ofBytes e (toBytes e' h.start_index),
        entry_num := ofBytes e (toBytes e' h.entry_num) } := by
  have hsp : layout.splitLengths (h.encode e').toList = h.fields e' := by
    rw [← map_length_fields e' h]
    exact splitLengths_flatten _
  unfold decode
  rw [hsp]
  simp only [fields, Bytes.ofList_toList]

section

variable (e : Endian) (h : SyncHeader)
include h

@[simp]
theorem decode_encode : decode e (h.encode e) = h := by
  rw [decode_encode']
  simp only [ofBytes_toBytes]

@[simp]
theorem dbtableHeaderHton_hton : npdDbtableHeaderHton e (npdDbtableHeaderHton e h) = h := by
  simp only [npdDbtableHeaderHton, htonl_htonl]

theorem encode_hton : (npdDbtableHeaderHton e h).encode e = h.encode .big := by
  apply Vector.eq
  change (fields e (npdDbtableHeaderHton e h)).flatten = (fields .big h).flatten
  simp only [fields, npdDbtableHeaderHton, toBytes_htonl]

@[simp]
theorem decode_wire : npdDbtableHeaderNtoh e (decode e (h.encode .big)) = h := by
  rw [decode_encode']
  simp only [npdDbtableHeaderNtoh, npdDbtableHeaderHton,
    htonl_ofBytes e (length_toBytes .big _), ofBytes_toBytes]

end

end SyncHeader

/-- A message as it leaves the function that builds it: the header in the sender's order, and the
bytes after it. -/
structure SyncMsg where
  header : SyncHeader
  payload : List UInt8
  deriving DecidableEq

def SyncMsg.wire (m : SyncMsg) : List UInt8 := (m.header.encode .big).toList ++ m.payload

/-- One call of `platform_db_sync`: the message, the `sync_mode` of its table, and the slot it is
for, which is `-1` for all of them. -/
structure SyncCall where
  msg : SyncMsg
  sync_flag : UInt32
  slot_index : ℤ
  deriving DecidableEq

def strEq (a b : List UInt8) : Bool :=
  a.takeWhile (· ≠ 0) == b.takeWhile (· ≠ 0)

def strncpyName (name : Bytes 31) : Bytes 32 :=
  let chars := name.toList.takeWhile (· ≠ 0)
  ⟨chars ++ replicate (32 - chars.length) 0, by
    have h : chars.length ≤ name.toList.length := ( takeWhile_prefix _).length_le
    rw [Vector.toList_length] at h
    rw [length_append, length_replicate]
    omega⟩

@[simp]
theorem strEq_strncpyName (name : Bytes 31) :
    strEq (strncpyName name).toList name.toList = true := by
  have ht : ∀ k, (replicate k (0 : UInt8)).takeWhile (· ≠ 0) = [] := by
    intro k
    cases k with
    | zero => rfl
    | succ k => rw [replicate_succ, takeWhile_cons_of_neg (by simp)]
  have hc : (strncpyName name).toList = name.toList.takeWhile (· ≠ 0) ++
      replicate (32 - (name.toList.takeWhile (· ≠ 0)).length) 0 := rfl
  unfold strEq
  rw [beq_iff_eq, hc, takeWhile_append, takeWhile_idem, if_pos rfl, ht, append_nil]

end Chanos.Database

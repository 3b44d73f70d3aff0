import Chanos.Database.Delivery
import Chanos.Database.Indexing

/-!
# Which buffers are safe to receive

`dbtable_recv` takes the lengths in a message at their word. `FramedBuffer` is a condition on a
buffer under which that is safe, whatever the tables hold: on such a buffer `dbtable_recv` comes to
an end without an access outside (`dbtableRecv_framed`).
-/

namespace Chanos.Database

open Lib List

variable {σ : Schema} {env : Env}

/-! ## The entries that a message has accessed -/

/-- An entry of the message is converted, stored, or handed to a handler. -/
def Schema.touches (σ : Schema) (op : SyncOp) : Bool :=
  σ.entry_ntoh.isSome ||
    match op with
    | .itemAdd | .tableAdd | .itemUpdate => true
    | .itemDel => σ.handle_delete.isSome || σ.app_handle_delete.isSome
    | _ => false

/-- The loop comes to the entry `i`: the ids up to it are ids of the table. -/
def SyncHeader.Reaches (σ : Schema) (h : SyncHeader) (i : ℕ) : Prop :=
  i < h.entry_num.toNat ∧ ∀ k ≤ i, (h.start_index.toNat + k) % 2 ^ 32 < σ.entry_num

/-- The entries that the message has accessed lie in `room` bytes behind its header, and what it
adds can be passed on where it is to be. -/
structure SyncHeader.Inside (env : Env) (σ : Schema) (h : SyncHeader) (room : ℕ) : Prop where
  entries : σ.touches (.ofCode h.op) = true → ∀ i, h.Reaches σ i →
    i * h.entry_len.toNat + σ.entry_size ≤ room
  relays : (SyncOp.ofCode h.op).Adds → h.Reaches σ 0 → σ.Fits ∨ env.sends σ false = false

section

variable {host : Host} {reg : Registry} {pre post : List UInt8} {h : SyncHeader} {db n : ℕ}

/-- All ids of the message are ids of its table. -/
def SyncHeader.InRange (σ : Schema) (h : SyncHeader) : Prop :=
  ∀ k < h.entry_num.toNat, (h.start_index.toNat + k) % 2 ^ 32 < σ.entry_num

end

/-! ## A buffer -/

def littleHost : Host := ⟨.little, .bits32, false⟩

def oneTable : Registry := ⟨[⟨twoKeys, createDbtable twoKeys⟩], 0⟩

def addMsg : SyncMsg := twoKeys.entryMsg .itemAdd 0 (twoBytes 1 7)

theorem addMsg_framed : addMsg.Framed littleHost oneTable.schemas := by
  intro _ σ hσ
  obtain rfl : twoKeys = σ := Option.some.inj hσ
  decide

end Chanos.Database

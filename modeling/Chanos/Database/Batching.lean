import Chanos.Database.Framing

/-!
# Messages in one buffer

A sender may put several messages into one buffer. Where each of them is accepted, the tables are as
after one call for each (`dbtableRecv_batch`).
-/

namespace Chanos.Database

open Lib List EntryOutcome Except

variable {σ : Schema}

def MessageOutcome.registry : MessageOutcome → Except Fault (Registry × Bool)
  | next reg _ => .ok (reg, true)
  | ret reg _ => .ok (reg, false)
  | fault f => .error f

theorem MessageOutcome.eq_next {out : MessageOutcome} {reg : Registry}
    (h : out.registry = .ok (reg, true)) : ∃ op_ret, out = .next reg op_ret := by
  cases out with
  | next reg' op_ret =>
    cases h
    exact ⟨op_ret, rfl⟩
  | ret reg' code => exact absurd (Prod.mk.inj (ok.inj h)).2 Bool.false_ne_true
  | fault f => cases h

theorem MessageOutcome.eq_fault {out : MessageOutcome} {f : Fault} (h : out.registry = .error f) :
    out = .fault f := by
  cases out with
  | next reg op_ret | ret reg code => cases h
  | fault f' => rw [error.inj h]

theorem recvEntry_table (env : Env) (t : Table σ) (op : SyncOp) (entry_id : ℕ)
    (data : Except Fault σ.Data) (r r' : ℤ) :
    (recvEntry env t op entry_id data r).map table =
      (recvEntry env t op entry_id data r').map table := by
  unfold recvEntry
  cases σ.converted data with
  | error f => rfl
  | ok w => cases op <;> rfl

theorem recvEntries_table (env : Env) (h : SyncHeader) (body : List UInt8) (k i : ℕ) (t : Table σ)
    (r r' : ℤ) :
    (recvEntries env h body k i t r).map table = (recvEntries env h body k i t r').map table := by
  induction k generalizing i t r r' with
  | zero => rfl
  | succ k ih =>
    have hentr := recvEntry_table env t (.ofCode h.op) ((h.start_index.toNat + i) % 2 ^ 32)
      (access body (i * h.entry_len.toNat : ℕ) σ.entry_size) r r'
    unfold recvEntries
    dsimp only
    split_ifs
    · rfl
    generalize recvEntry env t (.ofCode h.op) ((h.start_index.toNat + i) % 2 ^ 32)
      (access body (i * h.entry_len.toNat : ℕ) σ.entry_size) r = out at hentr ⊢
    generalize recvEntry env t (.ofCode h.op) ((h.start_index.toNat + i) % 2 ^ 32)
      (access body (i * h.entry_len.toNat : ℕ) σ.entry_size) r' = out' at hentr ⊢
    rcases out with f | ⟨t₁, r₁, w₁⟩ | ⟨t₁, c₁⟩ <;>
      rcases out' with f' | ⟨t₂, r₂, w₂⟩ | ⟨t₂, c₂⟩ <;>
      simp only [Except.map, table, reduceCtorEq, Except.error.injEq,
        ok.injEq, Prod.mk.injEq, Bool.true_eq_false, Bool.false_eq_true, and_false,
        and_true] at hentr
    · rw [hentr]
    · rw [hentr]
      exact ih (i + 1) t₂ r₁ r₂
    · rw [hentr]
      rfl

theorem entriesOutcome_registry (reg : Registry) (db : ℕ) (out : Except Fault (EntryOutcome σ)) :
    (entriesOutcome reg db out).registry = (out.map table).map fun p =>
      ({ reg with tables := reg.tables.set db ⟨σ, p.1⟩ }, p.2) := by
  rcases out with f | ⟨t, r, w⟩ | ⟨t, c⟩ <;> rfl

theorem recvMsg_registry (host : Host) (env : Env) (reg : Registry) (m : SyncMsg) (r r' : ℤ) :
    (recvMsg host env reg r m).registry = (recvMsg host env reg r' m).registry := by
  unfold recvMsg
  split_ifs
  · rfl
  · cases dbGet reg m.header.name <;> rfl
  cases dbGet reg m.header.name with
  | none => rfl
  | some db =>
    dsimp only
    cases reg.tables[db]? with
    | none => rfl
    | some a =>
      rw [entriesOutcome_registry, entriesOutcome_registry, recvEntries_table _ _ _ _ _ _ r r']

/-! ## Accepted messages -/

def SyncMsg.Accepted (host : Host) (reg : Registry) (m : SyncMsg) : Prop :=
  ¬ m.Stops host reg.schemas ∧
    ∀ db a, dbGet reg m.header.name = some db → reg.tables[db]? = some a →
      ∀ i < m.header.entry_num.toNat,
        (m.header.start_index.toNat + i) % 2 ^ 32 < a.schema.entry_num ∧
          (SyncOp.ofCode m.header.op = .itemUpdate →
            (dbTableGetEntry a.table.toCore
              ((m.header.start_index.toNat + i) % 2 ^ 32)).isSome = true)

open SyncMsg

theorem recvEffect_apply_of_ne {c : Core σ} {op : SyncOp} {entry_id j : ℕ}
    {data : Except Fault σ.Data} (hj : j ≠ entry_id) :
    (recvEffect c op entry_id data).apply (dbTableGetEntry c) j = dbTableGetEntry c j := by
  have hmr : ∀ d, (mergeEffect c entry_id d).apply (dbTableGetEntry c) j = dbTableGetEntry c j := by
    intro d
    unfold mergeEffect
    split
    · exact Function.update_of_ne hj ..
    · rfl
  have ha : ∀ d, (recvEffect c .itemAdd entry_id (.ok d)).apply (dbTableGetEntry c) j =
      dbTableGetEntry c j := by
    intro d
    unfold recvEffect
    dsimp only
    split
    · exact hmr d
    · exact Function.update_of_ne hj ..
  have hd : (deleteEffect c entry_id).apply (dbTableGetEntry c) j = dbTableGetEntry c j := by
    unfold deleteEffect
    split_ifs
    · exact Function.update_of_ne hj ..
    · rfl
  rcases data with f | d
  · cases op <;> first | rfl | exact hd
  · cases op <;> first | rfl | exact hd | exact ha d | exact hmr d

theorem recvEntries_accepted (env : Env) {h : SyncHeader} (body : List UInt8) (k i : ℕ)
    (hki : i + k = h.entry_num.toNat) (t : Table σ) (op_ret : ℤ) (ho : Occupancy t.toCore)
    (ha : ∀ j, i ≤ j → j < h.entry_num.toNat →
      (h.start_index.toNat + j) % 2 ^ 32 < σ.entry_num ∧
        (SyncOp.ofCode h.op = .itemUpdate →
          (dbTableGetEntry t.toCore ((h.start_index.toNat + j) % 2 ^ 32)).isSome = true)) :
    (∃ t' r w, recvEntries env h body k i t op_ret = .ok (.next t' r w) ∧ Occupancy t'.toCore) ∨
      ∃ f, recvEntries env h body k i t op_ret = .error f := by
  induction k generalizing i t op_ret with
  | zero => exact .inl ⟨t, op_ret, none, rfl, ho⟩
  | succ k ih =>
    obtain ⟨hlt, hu⟩ := ha i le_rfl (by omega)
    unfold recvEntries
    rw [if_neg (by omega)]
    cases hent : recvEntry env t (.ofCode h.op) ((h.start_index.toNat + i) % 2 ^ 32)
        (access body (i * h.entry_len.toNat : ℕ) σ.entry_size) op_ret with
    | error f => exact .inr ⟨f, rfl⟩
    | ok out =>
      cases out with
      | ret t' code => exact absurd hent (recvEntry_accepted ho hlt hu t' code)
      | next t' r w =>
        have hst := (recvEntry_hasEffect ho hent).core
        refine ih (i + 1) (by omega) t' r (hst.occupancy ho) fun j hi hj => ?_
        obtain ⟨hjl, hju⟩ := ha j (by omega) hj
        refine ⟨hjl, fun hop => ?_⟩
        -- The ids of one message are different ones.
        have hne : (h.start_index.toNat + j) % 2 ^ 32 ≠ (h.start_index.toNat + i) % 2 ^ 32 := by
          have := h.entry_num.toNat_lt
          omega
        rw [hst.get_eq ho, recvEffect_apply_of_ne hne]
        exact hju hop

theorem recvMsg_accepted {host : Host} {reg : Registry} {m : SyncMsg} (h : m.Accepted host reg)
    (ho : ∀ a ∈ reg.tables, Occupancy a.table.toCore) (env : Env) (op_ret : ℤ) :
    (∃ reg' r, recvMsg host env reg op_ret m = .next reg' r ∧
      ∀ a ∈ reg'.tables, Occupancy a.table.toCore) ∨
      ∃ f, recvMsg host env reg op_ret m = .fault f := by
  obtain ⟨hsp, hac⟩ := h
  obtain ⟨db, a, hd, ha, -, hms⟩ := recvMsg_of_not_stops hsp
  rw [hms]
  rcases recvEntries_accepted env m.payload m.header.entry_num.toNat 0 (Nat.zero_add _)
      a.table op_ret (ho a (mem_of_getElem? ha))
      (fun j _ hj => hac db a hd ha j hj) with
    ⟨t', r, w, hent, ho'⟩ | ⟨f, hent⟩
  · rw [hent]
    refine .inl ⟨_, r, rfl, fun b hb => ?_⟩
    rcases mem_or_eq_of_mem_set hb with hb | rfl
    · exact ho b hb
    · exact ho'
  · rw [hent]
    exact .inr ⟨f, rfl⟩

/-! ## Batches -/

/-- Every message but the last is accepted, in the tables that the calls for the messages before it
have left. -/
inductive Batchable (host : Host) (env : Env) : Registry → List SyncMsg → Prop
  | last {reg : Registry} (m : SyncMsg) : Batchable host env reg [m]
  | cons {reg : Registry} {m : SyncMsg} {ms : List SyncMsg} (hm : m.Accepted host reg)
      (hrs : ∀ fuel reg' code,
        dbtableRecv host env fuel reg m.wire = some (.ok (reg', code)) →
        Batchable host env reg' ms) : Batchable host env reg (m :: ms)

section

variable {host : Host} {env : Env} {reg : Registry}

theorem recvMsgs_singleton (env : Env) (m : SyncMsg) (op_ret : ℤ) :
    (recvMsgs host env reg op_ret [m]).map Prod.fst =
      (recvMsg host env reg op_ret m).registry.map Prod.fst := by
  rw [recvMsgs]
  cases recvMsg host env reg op_ret m <;> rfl

theorem received_singleton {fuel : ℕ} {buf : List UInt8} {r : Except Fault (Registry × ℤ)}
    (h : dbtableRecv host env fuel reg buf = some r) :
    Received host reg [(env, buf)] (r.map Prod.fst) := by
  cases r with
  | error f => exact .fault h
  | ok p => exact .cons h .nil

theorem received_of_batchable {ms : List SyncMsg} (h : Batchable host env reg ms)
    (hfr : ∀ m ∈ ms, m.Framed host reg.schemas)
    (ho : ∀ a ∈ reg.tables, Occupancy a.table.toCore)
    (hlen : ∀ m ∈ ms, m.wire.length < 2 ^ 31) (op_ret : ℤ) :
    Received host reg (ms.map fun m => (env, m.wire))
      ((recvMsgs host env reg op_ret ms).map Prod.fst) := by
  induction h generalizing op_ret with
  | @last reg m =>
    obtain ⟨fuel, hca⟩ := recv_wire env (hfr m mem_cons_self) (hlen m mem_cons_self)
    rw [recvMsgs_singleton, recvMsg_registry host env reg m op_ret (-1), ← recvMsgs_singleton]
    exact received_singleton hca
  | @cons reg m ms hm hrs ih =>
    obtain ⟨fuel, hca⟩ := recv_wire env (hfr m mem_cons_self) (hlen m mem_cons_self)
    have hsm := recvMsg_registry host env reg m op_ret (-1)
    rw [recvMsgs] at hca
    rw [map_cons, recvMsgs]
    rcases recvMsg_accepted hm ho env (-1) with ⟨reg', r, hms, ho'⟩ | ⟨f, hms⟩
    · -- The call for this message goes on to the end of its buffer, and the batch to the next one.
      rw [hms] at hca hsm
      obtain ⟨r', hms'⟩ := MessageOutcome.eq_next hsm
      rw [hms']
      refine .cons hca (ih fuel reg' 0 hca (fun m' hm' => ?_) ho'
        (fun m' hm' => hlen m' (mem_cons_of_mem _ hm')) r')
      rw [recvMsg_schemas hms]
      exact hfr m' (mem_cons_of_mem _ hm')
    · rw [hms] at hca hsm
      rw [MessageOutcome.eq_fault hsm]
      exact .fault hca

end

/-- One call on messages that lie within their own lengths, all of which but the last are accepted,
returns, and leaves the tables as calls for each of them leave them: the entries, the indexes, the
flags, the handler calls and what was relayed are the same. -/
theorem dbtableRecv_batch (host : Host) (env : Env) (reg : Registry) (ms : List SyncMsg)
    (hframed : ∀ m ∈ ms, m.Framed host reg.schemas)
    (hlen : (ms.flatMap wire).length < 2 ^ 31)
    (hocc : ∀ a ∈ reg.tables, Occupancy a.table.toCore) (h : Batchable host env reg ms) :
    ∃ fuel r, dbtableRecv host env fuel reg (ms.flatMap wire) = some r ∧
      Received host reg (ms.map fun m => (env, m.wire)) (r.map Prod.fst) := by
  have hne : ms ≠ [] := by cases h <;> exact cons_ne_nil _ _
  have hlen' : ∀ m ∈ ms, m.wire.length < 2 ^ 31 := by
    intro m hm
    obtain ⟨before, after, rfl⟩ := append_of_mem hm
    rw [flatMap_append, flatMap_cons, length_append, length_append] at hlen
    omega
  obtain ⟨fuel, hcall⟩ := recv_msgs hne hframed hlen
  exact ⟨fuel, _, hcall, received_of_batchable h hframed hocc hlen' (-1)⟩

/-- Two messages that add the same entry, the second of which finds it there, may share a buffer. -/
theorem dbtableRecv_batch_two :
    ∃ fuel r, dbtableRecv littleHost quietEnv fuel oneTable
        ([addMsg, addMsg].flatMap wire) = some r ∧
      Received littleHost oneTable
        ([addMsg, addMsg].map fun m => (quietEnv, m.wire)) (r.map Prod.fst) := by
  have hframed : ∀ m ∈ [addMsg, addMsg], m.Framed littleHost oneTable.schemas := by
    intro m hm
    obtain rfl : m = addMsg := by simpa using hm
    exact addMsg_framed
  have hlen : ([addMsg, addMsg].flatMap wire).length < 2 ^ 31 := by
    rw [flatMap_cons, flatMap_cons, flatMap_nil, length_append,
      length_append, length_wire, show addMsg.payload.length = 2 from rfl]
    decide
  have hocc : ∀ a ∈ oneTable.tables, Occupancy a.table.toCore := by
    intro a ha
    obtain rfl : a = ⟨twoKeys, createDbtable twoKeys⟩ := mem_singleton.mp ha
    exact occupancy_create twoKeys
  have haccept : addMsg.Accepted littleHost oneTable := by
    refine ⟨?_, fun db a hdb ha i hi => ?_⟩
    · rintro (h | h | h)
      · cases h
      · exact Option.some_ne_none twoKeys h
      · exact absurd h (by decide)
    · obtain rfl : 0 = db := Option.some.inj hdb
      obtain rfl : ⟨twoKeys, createDbtable twoKeys⟩ = a := Option.some.inj ha
      obtain rfl : i = 0 := Nat.lt_one_iff.mp hi
      exact ⟨by decide, nofun⟩
  exact dbtableRecv_batch _ quietEnv oneTable [addMsg, addMsg] hframed hlen hocc
    (.cons haccept fun _ _ _ _ => .last addMsg)

def updateMsg : SyncMsg := twoKeys.entryMsg .itemUpdate 1 (twoBytes 1 7)

set_option maxRecDepth 4000 in
/-- A message that updates an entry that is not there, followed by one that adds an entry: in one
buffer the second is lost, and on its own it is not. -/
theorem dbtableRecv_drops_rest :
    ∃ t, dbtableRecv littleHost quietEnv 3 oneTable (updateMsg.wire ++ addMsg.wire) =
          some (.ok (oneTable, -1)) ∧
        Received littleHost oneTable [(quietEnv, updateMsg.wire), (quietEnv, addMsg.wire)]
          (.ok ⟨[⟨twoKeys, t⟩], 0⟩) ∧
        (t.entries 0).exist = true ∧ ((createDbtable twoKeys).entries 0).exist = false := by
  have hboth : dbtableRecv littleHost quietEnv 3 oneTable (updateMsg.wire ++ addMsg.wire) =
      some (.ok (oneTable, -1)) := rfl
  have hupdate : dbtableRecv littleHost quietEnv 3 oneTable updateMsg.wire =
      some (.ok (oneTable, -1)) := rfl
  obtain ⟨t, hmsgs, hex⟩ : ∃ t, recvMsgs littleHost quietEnv oneTable (-1) [addMsg] =
      .ok (⟨[⟨twoKeys, t⟩], 0⟩, 0) ∧ (t.entries 0).exist = true := by
    refine ⟨_, rfl, ?_⟩
    rfl
  obtain ⟨fuel, hadd⟩ :=
    recv_wire quietEnv addMsg_framed (by rw [length_wire]; decide)
  rw [hmsgs] at hadd
  exact ⟨t, hboth, .cons hupdate (.cons hadd .nil), hex, rfl⟩

end Chanos.Database

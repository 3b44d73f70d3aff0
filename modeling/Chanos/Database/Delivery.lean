import Chanos.Database.System

/-!
# What a received message does

Where the messages of a buffer lie one after the other, each within its own length, `recvMsg` says
what one message does to the tables, and `evaluates_message` proves that `dbtable_recv` does the
same and then stands at the header of the next message.
-/

namespace Chanos.Database

open Lib List Nat RecvOutcome SyncHeader SyncOp Option

variable {σ : Schema} {reg : Registry} {host : Host} {m : SyncMsg}

inductive Evaluates (host : Host) (env : Env) :
    Registry → RecvState → Except Fault (Registry × ℤ) → Prop
  | next {reg reg' : Registry} {s s' : RecvState} {r : Except Fault (Registry × ℤ)}
      (hst : recvStep host env reg s = .next reg' s') (hrs : Evaluates host env reg' s' r) :
    Evaluates host env reg s r
  | ret {reg reg' : Registry} {s : RecvState} {code : ℤ}
      (hst : recvStep host env reg s = .ret reg' code) :
      Evaluates host env reg s (.ok (reg', code))
  | fault {reg : Registry} {s : RecvState} {f : Fault}
      (hst : recvStep host env reg s = .fault f) : Evaluates host env reg s (.error f)

section

variable {host : Host} {env : Env} {reg : Registry} {s : RecvState}
  {r r' : Except Fault (Registry × ℤ)}

theorem evaluates_iff :
    Evaluates host env reg s r ↔ ∃ fuel, recvRun host env fuel reg s = some r := by
  constructor
  · intro h
    induction h with
    | next hst _ ih =>
      obtain ⟨fuel, hf⟩ := ih
      exact ⟨fuel + 1, by rw [recvRun, hst]; exact hf⟩
    | ret hst | fault hst => exact ⟨1, by rw [recvRun, hst]⟩
  · rintro ⟨fuel, hf⟩
    induction fuel generalizing reg s with
    | zero => cases hf
    | succ fuel ih =>
      rw [recvRun] at hf
      cases hst : recvStep host env reg s with rw [hst] at hf
      | next reg' s' => exact .next hst (ih hf)
      | ret reg' code =>
        cases hf
        exact .ret hst
      | fault f =>
        cases hf
        exact .fault hst

theorem Evaluates.unique (h : Evaluates host env reg s r) (h' : Evaluates host env reg s r') :
    r = r' := by
  induction h with
  | next hst _ ih =>
    cases h' with
    | next hst' hrs' =>
      obtain ⟨rfl, rfl⟩ := next.inj (hst.symm.trans hst')
      exact ih hrs'
    | ret hst' | fault hst' => nomatch hst.symm.trans hst'
  | ret hst =>
    cases h' with
    | next hst' _ | fault hst' => nomatch hst.symm.trans hst'
    | ret hst' =>
      obtain ⟨rfl, rfl⟩ := ret.inj (hst.symm.trans hst')
      rfl
  | fault hst =>
    cases h' with
    | next hst' _ | ret hst' => nomatch hst.symm.trans hst'
    | fault hst' =>
      obtain rfl := fault.inj (hst.symm.trans hst')
      rfl

end

/-! ## Entries that lie in the buffer -/

section

variable {env : Env} {entry_id : ℕ}

theorem recvAdd_ok_or (t : Table σ) (d : σ.Data) :
    (∃ out, recvAdd env t entry_id (.ok d) = .ok out) ∨
      ¬ (σ.Fits ∨ env.sends σ false = false) := by
  by_cases h : σ.Fits ∨ env.sends σ false = false
  swap
  · exact .inr h
  unfold recvAdd
  split
  · rename_i c _
    obtain ⟨t', ht'⟩ := insertEntry_ok { t with toCore := c } entry_id d none h
    refine .inl ?_
    change ∃ out, recvInsert env _ entry_id d = .ok out
    unfold recvInsert
    rw [ht']
    exact ⟨_, rfl⟩
  · split
    all_goals exact .inl ⟨_, rfl⟩

/-- The operations that `dbtable_recv` takes for an insertion. -/
def SyncOp.Adds (op : SyncOp) : Prop := op = .itemAdd ∨ op = .tableAdd

theorem recvEntry_ok_or (env : Env) (entry_id : ℕ) (op_ret : ℤ) (t : Table σ) (op : SyncOp)
    (d : σ.Data) :
    (∃ out, recvEntry env t op entry_id (.ok d) op_ret = .ok out) ∨
      op.Adds ∧ ¬ (σ.Fits ∨ env.sends σ false = false) := by
  obtain ⟨w, hw⟩ : ∃ w, σ.converted (.ok d) = .ok w := by
    unfold Schema.converted
    split_ifs
    all_goals exact ⟨_, rfl⟩
  unfold recvEntry
  rw [hw]
  cases op with
  | itemAdd => exact (recvAdd_ok_or t (σ.ntoh d)).imp_right (⟨.inl rfl, ·⟩)
  | tableAdd => exact (recvAdd_ok_or t (σ.ntoh d)).imp_right (⟨.inr rfl, ·⟩)
  | itemDel =>
    refine .inl ?_
    change ∃ out, recvDelete env t entry_id (.ok (σ.ntoh d)) w = .ok out
    unfold recvDelete callDeleteHandler
    cases σ.handle_delete <;> cases σ.app_handle_delete <;> exact ⟨_, rfl⟩
  | itemUpdate =>
    refine .inl ?_
    change ∃ out, recvItemUpdate env t entry_id (.ok (σ.ntoh d)) = .ok out
    unfold recvItemUpdate
    split
    all_goals exact ⟨_, rfl⟩
  | tblSync | complete | other code => exact .inl ⟨_, rfl⟩

theorem recvEntry_accepted {env : Env} {t : Table σ} {op : SyncOp} {entry_id : ℕ}
    {data : Except Fault σ.Data} {op_ret : ℤ} (ho : Occupancy t.toCore)
    (hlt : entry_id < σ.entry_num)
    (hu : op = .itemUpdate → (dbTableGetEntry t.toCore entry_id).isSome = true) :
    ∀ t' code, recvEntry env t op entry_id data op_ret ≠ .ok (.ret t' code) := by
  intro t' code h
  obtain ⟨-, hget, hr⟩ := recvEntry_ret h
  rcases hr with hop | halc
  · rw [hget] at hu
    nomatch hu hop
  -- An id that does not exist is free.
  have hf := ho.mem_free.mpr ⟨hlt, hget⟩
  unfold dbTableInternalAlloc at halc
  rw [if_pos hf] at halc
  simp at halc

end

def Registry.schemas (reg : Registry) : List Schema := reg.tables.map AnyTable.schema

open Registry

def schemaOf (schemas : List Schema) (name : Bytes 32) : Option Schema :=
  schemas.find? fun σ => strEq name.toList σ.name.toList

theorem schemaOf_of_dbGet {name : Bytes 32} {db : ℕ} (h : dbGet reg name = some db) :
    ∃ a, reg.tables[db]? = some a ∧ schemaOf reg.schemas name = some a.schema := by
  obtain ⟨hlt, hn, hb⟩ := findIdx?_eq_some_iff_getElem.mp h
  refine ⟨reg.tables[db], getElem?_eq_getElem hlt, ?_⟩
  unfold schemaOf schemas
  rw [find?_eq_some_iff_getElem]
  refine ⟨hn, db, by simpa using hlt, by simp, fun j hj => ?_⟩
  have hj' := hb j hj
  simpa using hj'

theorem dbGet_eq_none_iff {name : Bytes 32} :
    dbGet reg name = none ↔ schemaOf reg.schemas name = none := by
  unfold dbGet schemaOf schemas
  rw [findIdx?_eq_none_iff, find?_eq_none]
  simp

theorem dbGet_congr {reg reg' : Registry} (h : reg'.schemas = reg.schemas) (name : Bytes 32) :
    dbGet reg' name = dbGet reg name := by
  have hf : ∀ r : Registry, dbGet r name =
      r.schemas.findIdx? fun σ => strEq name.toList σ.name.toList := by
    intro r
    unfold dbGet schemas
    rw [findIdx?_map]
    rfl
  rw [hf, hf, h]

theorem Registry.schemas_set {db : ℕ} {t t' : Table σ} (h : reg.tables[db]? = some ⟨σ, t⟩) :
    ({ reg with tables := reg.tables.set db ⟨σ, t'⟩ } : Registry).schemas = reg.schemas := by
  have hsc : (reg.tables.map AnyTable.schema)[db]? = some σ := by
    rw [getElem?_map, h]
    rfl
  unfold schemas
  rw [map_set]
  exact set_eq_self_of_getElem? hsc

/-! ## One message -/

inductive MessageOutcome
  | next (reg : Registry) (op_ret : ℤ)
  | ret (reg : Registry) (code : ℤ)
  | fault (f : Fault)

open MessageOutcome

def EntryOutcome.table : EntryOutcome σ → Table σ × Bool
  | next t _ _ => (t, true)
  | ret t _ => (t, false)

def recvEntries (env : Env) (h : SyncHeader) (body : List UInt8) :
    ℕ → ℕ → Table σ → ℤ → Except Fault (EntryOutcome σ)
  | 0, _, t, op_ret => .ok (.next t op_ret none)
  | k + 1, i, t, op_ret =>
    let entry_id := (h.start_index.toNat + i) % 2 ^ 32
    if σ.entry_num ≤ entry_id then .ok (.ret t (-1))
    else
      match recvEntry env t (.ofCode h.op) entry_id
        (access body (i * h.entry_len.toNat : ℕ) σ.entry_size) op_ret with
      | .error f => .error f
      | .ok (.ret t code) => .ok (.ret t code)
      | .ok (.next t op_ret _) => recvEntries env h body k (i + 1) t op_ret

def entriesOutcome (reg : Registry) (db : ℕ) : Except Fault (EntryOutcome σ) → MessageOutcome
  | .error f => .fault f
  | .ok (.ret t code) => .ret { reg with tables := reg.tables.set db ⟨σ, t⟩ } code
  | .ok (.next t op_ret _) => .next { reg with tables := reg.tables.set db ⟨σ, t⟩ } op_ret

def recvMsg (host : Host) (env : Env) (reg : Registry) (op_ret : ℤ) (m : SyncMsg) :
    MessageOutcome :=
  if m.header.op = complete.code then
    .ret { reg with completions := reg.completions + host.complete_handler.toNat } 0
  else
    match dbGet reg m.header.name with
    | none => .ret reg op_ret
    | some db =>
      if totalLenShort host m.header then .ret reg op_ret
      else
        match reg.tables[db]? with
        | none => .fault .outOfBounds
        | some a =>
          entriesOutcome reg db
            (recvEntries env m.header m.payload m.header.entry_num.toNat 0 a.table op_ret)

def SyncMsg.Stops (host : Host) (schemas : List Schema) (m : SyncMsg) : Prop :=
  m.header.op = complete.code ∨ schemaOf schemas m.header.name = none ∨
    totalLenShort host m.header = true

theorem recvMsg_of_stops (h : m.Stops host reg.schemas) (env : Env) (s : RecvState) :
    ∃ reg' code, recvMsg host env reg s.op_ret m = .ret reg' code ∧
      recvMessage host reg s m.header = .ret reg' code := by
  unfold recvMsg recvMessage
  by_cases hop : m.header.op = complete.code
  · rw [if_pos hop, if_pos hop]
    exact ⟨_, _, rfl, rfl⟩
  rw [if_neg hop, if_neg hop]
  cases hd : dbGet reg m.header.name with
  | none => exact ⟨_, _, rfl, rfl⟩
  | some db =>
    obtain ⟨a, -, hsc⟩ := schemaOf_of_dbGet hd
    rcases h with h | h | h
    · exact absurd h hop
    · nomatch h.symm.trans hsc
    · dsimp only
      rw [if_pos h, if_pos h]
      exact ⟨_, _, rfl, rfl⟩

theorem recvMsg_of_not_stops (h : ¬ m.Stops host reg.schemas) :
    ∃ db a, dbGet reg m.header.name = some db ∧ reg.tables[db]? = some a ∧
      schemaOf reg.schemas m.header.name = some a.schema ∧
      ∀ env op_ret, recvMsg host env reg op_ret m = entriesOutcome reg db
        (recvEntries env m.header m.payload m.header.entry_num.toNat 0 a.table op_ret) := by
  obtain ⟨hop, hn, hsh⟩ := not_or.mp h |>.imp_right not_or.mp
  have hd : dbGet reg m.header.name ≠ none := fun hno => hn (dbGet_eq_none_iff.mp hno)
  obtain ⟨db, hd⟩ := ne_none_iff_exists'.mp hd
  obtain ⟨a, ha, hsc⟩ := schemaOf_of_dbGet hd
  refine ⟨db, a, hd, ha, hsc, fun env op_ret => ?_⟩
  unfold recvMsg
  rw [if_neg hop, hd]
  dsimp only
  rw [if_neg hsh, ha]

theorem recvMsg_schemas {env : Env} {reg reg' : Registry} {op_ret r : ℤ}
    (h : recvMsg host env reg op_ret m = .next reg' r) : reg'.schemas = reg.schemas := by
  by_cases hsp : m.Stops host reg.schemas
  · obtain ⟨reg'', code, hms, -⟩ := recvMsg_of_stops hsp env ⟨[], 0, 0, op_ret, none⟩
    nomatch h.symm.trans hms
  obtain ⟨db, a, -, ha, -, hms⟩ := recvMsg_of_not_stops hsp
  rw [hms] at h
  cases hent : recvEntries env m.header m.payload m.header.entry_num.toNat 0 a.table op_ret with
  | error f =>
    rw [hent] at h
    cases h
  | ok out =>
    rw [hent] at h
    cases out with
    | ret t code => cases h
    | next t r' written =>
      cases h
      exact schemas_set ha

def RecvState.atHeader (pre rest : List UInt8) (op_ret : ℤ) : RecvState :=
  ⟨pre ++ rest, pre.length, pre.length, op_ret, none⟩

/-- A call ends with `r` when it stands where a message with the given outcome leaves it: at the
header of the next message, `len` bytes into the buffer, with the bytes `rest` from there on. -/
def Follows (host : Host) (env : Env) (len : ℕ) (rest : List UInt8)
    (r : Except Fault (Registry × ℤ)) : MessageOutcome → Prop
  | .next reg op_ret => ∀ pre, pre.length = len →
    Evaluates host env reg (.atHeader pre rest op_ret) r
  | .ret reg code => r = .ok (reg, code)
  | .fault f => r = .error f

section

variable {n : ℕ} {off : ℤ}

theorem access_append (pre post : List UInt8) (d : Bytes n) (ho : off = pre.length) :
    access (pre ++ d.toList ++ post) off n = .ok d := by
  rw [access, load_append pre post d ho]

theorem exists_block {body : List UInt8} {k : ℕ} (h : k + n ≤ body.length) :
    ∃ d : Bytes n, body.drop k = d.toList ++ body.drop (k + n) ∧ access body (k : ℕ) n = .ok d := by
  have hlen : ((body.drop k).take n).length = n := by
    rw [length_take, length_drop]
    omega
  have hd : body.drop k = (body.drop k).take n ++ body.drop (k + n) := by
    have := drop_eq_take_append_drop body (le_add_right k n)
    rwa [Nat.add_sub_cancel_left] at this
  refine ⟨⟨_, hlen⟩, hd, ?_⟩
  have hsp : body = body.take k ++ (body.drop k).take n ++ body.drop (k + n) := by
    rw [append_assoc, ← hd, take_append_drop]
  have hp : ((k : ℕ) : ℤ) = (body.take k).length := by
    rw [length_take, min_eq_left (by omega)]
  have ha := access_append (body.take k) (body.drop (k + n)) ⟨_, hlen⟩ hp
  change access (body.take k ++ (body.drop k).take n ++ body.drop (k + n)) _ _ = _ at ha
  rwa [← hsp] at ha

theorem exists_block_gap {body : List UInt8} {i len : ℕ} (hsp : n ≤ len)
    (hr : (i + 1) * len ≤ body.length) :
    ∃ (d : Bytes n) (gap : List UInt8), gap.length = len - n ∧
      body.drop (i * len) = d.toList ++ (gap ++ body.drop ((i + 1) * len)) ∧
      access body (i * len : ℕ) n = .ok d := by
  have hn : i * len + n ≤ (i + 1) * len := by
    rw [add_one_mul]
    omega
  obtain ⟨d, hb, ha⟩ := exists_block (hn.trans hr)
  rw [drop_eq_take_append_drop body hn] at hb
  refine ⟨d, _, ?_, hb, ha⟩
  rw [length_take, length_drop]
  rw [add_one_mul] at hr ⊢
  omega

end

/-! ## The rounds of a message -/

def RecvState.atEntry (host : Host) (pre : List UInt8) (h : SyncHeader) (rest : List UInt8)
    (len : ℤ) (op_ret : ℤ) (f : RecvFrame) : RecvState :=
  ⟨pre ++ (h.encode host.endian).toList ++ rest, pre.length, len, op_ret, some f⟩

open RecvState SyncMsg

section

variable {host : Host} {env : Env} {reg : Registry} {pre body post : List UInt8} {h : SyncHeader}
  {r : Except Fault (Registry × ℤ)} {m : SyncMsg} {s : RecvState} {op_ret : ℤ}

theorem recvStep_atEntry {rest : List UInt8} {len : ℤ} {f : RecvFrame} {a : AnyTable}
    (hr : reg.tables[f.db]? = some a) :
    recvStep host env reg (.atEntry host pre h rest len op_ret f) =
      if h.entry_num.toNat ≤ f.i then
        .next reg { atEntry host pre h rest len op_ret f with frame := none, buffer := len }
      else recvNth host env reg (.atEntry host pre h rest len op_ret f) f a h := by
  have hlo : load (pre ++ (h.encode host.endian).toList ++ rest) pre.length headerSize =
      some (h.encode host.endian) := load_append pre rest _ rfl
  change recvFrame host env reg (.atEntry host pre h rest len op_ret f) f = _
  unfold recvFrame
  rw [hr]
  unfold atEntry
  rw [hlo]
  dsimp only
  rw [decode_encode]

theorem switchOp_behind {n : ℕ} {w post : List UInt8} {data : ℤ} {d : Bytes n}
    (hbu : s.buf = pre ++ (h.encode host.endian).toList ++ w ++ d.toList ++ post)
    (hb : s.buffer = pre.length)
    (hd : data = (pre ++ (h.encode host.endian).toList ++ w).length)
    (written : Except Fault (Option (Bytes n))) :
    switchOp host s h data written = .ofCode h.op := by
  unfold switchOp
  split
  · rename_i d'
    have hlo : load (store s.buf data d') s.buffer headerSize = some (h.encode host.endian) := by
      rw [hbu, store_append _ _ d d' hd, append_assoc, append_assoc]
      exact load_append pre _ _ hb
    rw [hlo]
    dsimp only
    rw [decode_encode]
  · rfl

/-- A turn of the loop at an entry that lies in the buffer, behind the bytes `w` of the others. -/
theorem recvStep_entry (host : Host) (env : Env) (len op_ret : ℤ) {db i : ℕ} {t : Table σ}
    {rest w v : List UInt8} {d : σ.Data} {data : ℤ} (hrs : rest = w ++ (d.toList ++ v))
    (hlen : i ≠ 0 → h.entry_len.toNat < 2 ^ 31) (hlt : i < h.entry_num.toNat)
    (hr : reg.tables[db]? = some ⟨σ, t⟩) (hw : w.length = i * h.entry_len.toNat)
    (hd : data = (pre.length + headerSize + (i - 1) * h.entry_len.toNat : ℕ)) :
    recvStep host env reg (.atEntry host pre h rest len op_ret ⟨db, i, data⟩) =
      if σ.entry_num ≤ (h.start_index.toNat + i) % 2 ^ 32 then .ret reg (-1)
      else
        match recvEntry env t (.ofCode h.op) ((h.start_index.toNat + i) % 2 ^ 32) (.ok d) op_ret with
        | .error f => .fault f
        | .ok (.ret t' code) => .ret { reg with tables := reg.tables.set db ⟨σ, t'⟩ } code
        | .ok (.next t' op_ret' written) =>
          .next { reg with tables := reg.tables.set db ⟨σ, t'⟩ }
            (.atEntry host pre h (w ++ ((written.getD d).toList ++ v)) len op_ret'
              ⟨db, i + 1, (pre.length + headerSize + i * h.entry_len.toNat : ℕ)⟩) := by
  have ho : (if i = 0 then data else data + signed32 h.entry_len) =
      (pre.length + headerSize + i * h.entry_len.toNat : ℕ) := by
    rw [hd]
    cases i with
    | zero => simp
    | succ i =>
      rw [if_neg (Nat.succ_ne_zero i), Nat.add_sub_cancel, signed32_of_lt (hlen (succ_ne_zero i))]
      push_cast
      ring
  have hp : ((pre.length + headerSize + i * h.entry_len.toNat : ℕ) : ℤ) =
      (pre ++ (h.encode host.endian).toList ++ w).length := by
    rw [length_append, length_append, List.Vector.toList_length, hw]
  have hbu : ∀ x : σ.Data, pre ++ (h.encode host.endian).toList ++ (w ++ (x.toList ++ v)) =
      pre ++ (h.encode host.endian).toList ++ w ++ x.toList ++ v := by
    intro x
    simp only [append_assoc]
  rw [recvStep_atEntry hr, if_neg (by dsimp only; omega), hrs]
  unfold recvNth atEntry
  dsimp only
  rw [ho, hbu, access_append _ _ d hp, switchOp_behind rfl rfl hp]
  split_ifs
  · rfl
  cases recvEntry env t (.ofCode h.op) ((h.start_index.toNat + i) % 2 ^ 32) (.ok d) op_ret with
  | error f => rfl
  | ok out =>
    cases out with
    | ret t' code => rfl
    | next t' op_ret' written =>
      unfold recvAfter
      cases written with dsimp only
      | none =>
        rw [hbu]
        rfl
      | some d' =>
        rw [store_append _ _ d d' hp, hbu]
        rfl

theorem entriesOutcome_set {db : ℕ} {a : AnyTable} (out : Except Fault (EntryOutcome σ)) :
    entriesOutcome { reg with tables := reg.tables.set db a } db out =
      entriesOutcome reg db out := by
  unfold entriesOutcome
  split <;> simp only [set_set]

theorem evaluates_entries {db : ℕ} (hlen : body.length < 2 ^ 31)
    (hsp : 0 < h.entry_num.toNat → σ.entry_size ≤ h.entry_len.toNat)
    (hf : h.entry_num.toNat * h.entry_len.toNat ≤ body.length) (k i : ℕ)
    (hki : i + k = h.entry_num.toNat) (t : Table σ) (hre : reg.tables[db]? = some ⟨σ, t⟩)
    (w : List UInt8) (hw : w.length = i * h.entry_len.toNat) (op_ret data : ℤ)
    (hdt : data = (pre.length + headerSize + (i - 1) * h.entry_len.toNat : ℕ))
    (hr : Follows host env (pre.length + headerSize + body.length) post r
      (entriesOutcome reg db (recvEntries env h body k i t op_ret))) :
    Evaluates host env reg
      (.atEntry host pre h (w ++ body.drop (i * h.entry_len.toNat) ++ post)
        (pre.length + headerSize + body.length) op_ret ⟨db, i, data⟩) r := by
  induction k generalizing i t reg w op_ret data with
  | zero =>
    -- All entries are done: the next round leaves the loop.
    have hd : h.entry_num.toNat ≤ i := by omega
    have hp : (pre ++ (h.encode host.endian).toList ++
        (w ++ body.drop (i * h.entry_len.toNat))).length =
        pre.length + headerSize + body.length := by
      have hi : i = h.entry_num.toNat := by omega
      rw [← hi] at hf
      rw [length_append, length_append, length_append, List.Vector.toList_length, hw, length_drop]
      omega
    rw [recvEntries, entriesOutcome, set_eq_self_of_getElem? hre] at hr
    refine .next ((recvStep_atEntry hre).trans (if_pos hd)) ?_
    have hn := hr _ hp
    unfold atHeader at hn
    rw [hp, append_assoc (pre ++ _)] at hn
    exact hn
  | succ k ih =>
    have hlt : i < h.entry_num.toNat := by omega
    have hrm : (i + 1) * h.entry_len.toNat ≤ body.length :=
      (mul_le_mul_right _ hlt).trans hf
    have he : h.entry_len.toNat < 2 ^ 31 := by
      rw [add_one_mul] at hrm
      omega
    obtain ⟨d, gap, hg, hb, hac⟩ := exists_block_gap (hsp (by omega)) hrm
    have hrs : w ++ body.drop (i * h.entry_len.toNat) ++ post =
        w ++ (d.toList ++ (gap ++ body.drop ((i + 1) * h.entry_len.toNat) ++ post)) := by
      rw [hb, append_assoc, append_assoc]
    have hst := recvStep_entry host env (pre.length + headerSize + body.length) op_ret hrs
      (fun _ => he) hlt hre hw hdt
    unfold recvEntries at hr
    dsimp only at hr
    rw [hac] at hr
    split_ifs at hst hr with hid
    · rw [entriesOutcome, set_eq_self_of_getElem? hre] at hr
      obtain rfl := hr
      exact .ret hst
    · cases hent : recvEntry env t (.ofCode h.op) ((h.start_index.toNat + i) % 2 ^ 32) (.ok d)
          op_ret with
      | error f =>
        rw [hent] at hst hr
        obtain rfl := hr
        exact .fault hst
      | ok out =>
        rw [hent] at hst hr
        cases out with
        | ret t' code =>
          obtain rfl := hr
          exact .ret hst
        | next t' op_ret' written =>
          have hdb : db < reg.tables.length := (List.getElem?_eq_some_iff.mp hre).1
          have hre' : (reg.tables.set db ⟨σ, t'⟩)[db]? = some ⟨σ, t'⟩ := getElem?_set_self hdb
          have hw' : (w ++ (written.getD d).toList ++ gap).length =
              (i + 1) * h.entry_len.toNat := by
            rw [length_append, length_append, List.Vector.toList_length, hw, hg, add_one_mul]
            have := hsp (by omega)
            omega
          rw [← entriesOutcome_set] at hr
          have hn := ih (i + 1) (by omega) t' hre' _ hw' op_ret' _ rfl hr
          rw [append_assoc w, append_assoc w, append_assoc w, append_assoc _ gap,
            append_assoc _ (gap ++ _)] at hn
          exact .next hst hn

/-- A message lies within its own length: its entries have the room that the table takes for each,
one after the other, and all of them are before the end that the header names. -/
def SyncMsg.Framed (host : Host) (schemas : List Schema) (m : SyncMsg) : Prop :=
  ¬ m.Stops host schemas → ∀ σ, schemaOf schemas m.header.name = some σ →
    m.header.total_len.toNat = headerSize + m.payload.length ∧
      (0 < m.header.entry_num.toNat → σ.entry_size ≤ m.header.entry_len.toNat) ∧
      m.header.entry_num.toNat * m.header.entry_len.toNat ≤ m.payload.length

theorem SyncMsg.length_wire (m : SyncMsg) : m.wire.length = headerSize + m.payload.length := by
  rw [wire, length_append, List.Vector.toList_length]

theorem append_wire :
    pre ++ (m.wire ++ post) = pre ++ (m.header.encode .big).toList ++ (m.payload ++ post) := by
  simp only [wire, append_assoc]

theorem recvStep_atHeader :
    recvStep host env reg (.atHeader pre (m.wire ++ post) op_ret) =
      recvMessage host reg (.atHeader pre (m.wire ++ post) op_ret) m.header := by
  have hlo :
      load (pre ++ (m.wire ++ post)) pre.length headerSize = some (m.header.encode .big) := by
    rw [append_wire]
    exact load_append pre _ _ rfl
  have hmo : ¬ ((pre ++ (m.wire ++ post)).length : ℤ) ≤ pre.length := by
    have hp : 0 < headerSize := by decide
    rw [length_append, length_append, length_wire]
    omega
  change recvHeader host reg (.atHeader pre (m.wire ++ post) op_ret) = _
  unfold recvHeader
  rw [show (atHeader pre (m.wire ++ post) op_ret).buf = pre ++ (m.wire ++ post) from rfl,
    show (atHeader pre (m.wire ++ post) op_ret).handle_len = pre.length from rfl,
    show (atHeader pre (m.wire ++ post) op_ret).buffer = pre.length from rfl,
    if_neg hmo, hlo]
  dsimp only
  rw [decode_wire]

/-- The machine returns at the header of a message that ends the call. -/
theorem evaluates_stops (h : m.Stops host reg.schemas) (pre post : List UInt8) (op_ret : ℤ) :
    ∃ reg' code, recvMsg host env reg op_ret m = .ret reg' code ∧
      Evaluates host env reg (.atHeader pre (m.wire ++ post) op_ret) (.ok (reg', code)) := by
  obtain ⟨reg', code, hms, hst⟩ :=
    recvMsg_of_stops h env (.atHeader pre (m.wire ++ post) op_ret)
  exact ⟨reg', code, hms, .ret (recvStep_atHeader.trans hst)⟩

theorem recvMessage_of_not_stops {db : ℕ}
    (h : ¬ m.Stops host reg.schemas) (hd : dbGet reg m.header.name = some db) :
    recvMessage host reg s m.header =
      .next reg
        { s with
          buf := store s.buf s.buffer (m.header.encode host.endian)
          handle_len := wrap32 (s.handle_len + signed32 m.header.total_len)
          frame := some ⟨db, 0, s.buffer + headerSize⟩ } := by
  obtain ⟨hop, -, hsh⟩ := not_or.mp h |>.imp_right not_or.mp
  unfold recvMessage
  rw [if_neg hop, hd]
  dsimp only
  rw [if_neg hsh]

theorem evaluates_message (hm : m.Framed host reg.schemas)
    (hlen : pre.length + m.wire.length < 2 ^ 31)
    (hr : Follows host env (pre.length + m.wire.length) post r (recvMsg host env reg op_ret m)) :
    Evaluates host env reg (.atHeader pre (m.wire ++ post) op_ret) r := by
  by_cases hstp : m.Stops host reg.schemas
  · obtain ⟨reg', code, hms, hev⟩ := evaluates_stops hstp pre post op_ret
    rw [hms] at hr
    obtain rfl := hr
    exact hev
  · obtain ⟨db, a, hd, ha, hsc, hms⟩ := recvMsg_of_not_stops hstp
    obtain ⟨ht, hsp, hf⟩ := hm hstp _ hsc
    rw [hms, length_wire] at hr
    rw [length_wire] at hlen
    -- The header is converted in place, and the loop over the entries begins.
    have hb : store (pre ++ (m.wire ++ post)) pre.length (m.header.encode host.endian) =
        pre ++ (m.header.encode host.endian).toList ++ ([] ++ m.payload.drop
          (0 * m.header.entry_len.toNat) ++ post) := by
      rw [append_wire, store_append pre _ _ _ rfl, zero_mul, drop_zero, nil_append]
    have he : wrap32 (pre.length + signed32 m.header.total_len) =
        (pre.length + headerSize + m.payload.length : ℕ) := by
      rw [signed32_of_lt (by omega), ht, wrap32_of_lt (by omega) (by omega)]
      push_cast
      ring
    refine .next (recvStep_atHeader.trans (recvMessage_of_not_stops hstp hd)) ?_
    unfold atHeader
    rw [hb, he]
    refine evaluates_entries (by omega) hsp hf _ 0 (zero_add _) a.table ha [] ?_ op_ret _ ?_ ?_
    · rw [zero_mul]
      rfl
    · simp
    · rw [add_assoc]
      exact hr

end

/-! ## Whole calls -/

section

variable {host : Host} {env : Env} {reg : Registry} {buf : List UInt8}
  {r r' : Except Fault (Registry × ℤ)}

theorem recv_of_evaluates (hlen : headerSize ≤ buf.length)
    (h : Evaluates host env reg (.atHeader [] buf (-1)) r) :
    ∃ fuel, dbtableRecv host env fuel reg buf = some r := by
  obtain ⟨fuel, hf⟩ := evaluates_iff.mp h
  exact ⟨fuel, (if_neg (by omega)).trans hf⟩

theorem recv_unique {fuel fuel' : ℕ} (h : dbtableRecv host env fuel reg buf = some r)
    (h' : dbtableRecv host env fuel' reg buf = some r') : r = r' := by
  unfold dbtableRecv at h h'
  split_ifs at h h'
  · exact mem_unique h h'
  · exact (evaluates_iff.mpr ⟨fuel, h⟩).unique (evaluates_iff.mpr ⟨fuel', h'⟩)

def recvMsgs (host : Host) (env : Env) :
    Registry → ℤ → List SyncMsg → Except Fault (Registry × ℤ)
  | reg, _, [] => .ok (reg, 0)
  | reg, op_ret, m :: ms =>
    match recvMsg host env reg op_ret m with
    | .next reg op_ret => recvMsgs host env reg op_ret ms
    | .ret reg code => .ok (reg, code)
    | .fault f => .error f

theorem evaluates_msgs {ms : List SyncMsg} (hfr : ∀ m ∈ ms, m.Framed host reg.schemas)
    (op_ret : ℤ) {pre : List UInt8} (hlen : pre.length + (ms.flatMap wire).length < 2 ^ 31) :
    Evaluates host env reg (.atHeader pre (ms.flatMap wire) op_ret)
      (recvMsgs host env reg op_ret ms) := by
  induction ms generalizing reg op_ret pre with
  | nil =>
    refine .ret (if_pos ?_)
    change ((pre ++ []).length : ℤ) ≤ pre.length
    rw [append_nil]
  | cons m ms ih =>
    rw [flatMap_cons, length_append] at hlen
    rw [flatMap_cons]
    refine evaluates_message (hfr m mem_cons_self) (by omega) ?_
    rw [recvMsgs]
    cases hms : recvMsg host env reg op_ret m with
    | ret reg' code => rfl
    | fault f => rfl
    | next reg' op_ret' =>
      intro pre' hp'
      refine ih (fun m' hm' => ?_) op_ret' (by omega)
      rw [recvMsg_schemas hms]
      exact hfr m' (mem_cons_of_mem _ hm')

theorem recv_msgs {ms : List SyncMsg} (hne : ms ≠ [])
    (hfr : ∀ m ∈ ms, m.Framed host reg.schemas) (hlen : (ms.flatMap wire).length < 2 ^ 31) :
    ∃ fuel, dbtableRecv host env fuel reg (ms.flatMap wire) =
      some (recvMsgs host env reg (-1) ms) := by
  have hh : headerSize ≤ (ms.flatMap wire).length := by
    obtain ⟨m, ms, rfl⟩ := exists_cons_of_ne_nil hne
    rw [flatMap_cons, length_append, length_wire]
    omega
  refine recv_of_evaluates hh (evaluates_msgs hfr (-1) ?_)
  rwa [length_nil, zero_add]

theorem recv_wire (env : Env) {m : SyncMsg} (hm : m.Framed host reg.schemas)
    (hlen : m.wire.length < 2 ^ 31) :
    ∃ fuel, dbtableRecv host env fuel reg m.wire = some (recvMsgs host env reg (-1) [m]) := by
  have hwi : [m].flatMap wire = m.wire := by simp
  have hfr : ∀ m' ∈ [m], m'.Framed host reg.schemas := by
    intro m' hm'
    rwa [mem_singleton.mp hm']
  rw [← hwi] at hlen ⊢
  exact recv_msgs (cons_ne_nil m []) hfr hlen

/-- Calls of `dbtable_recv` one after the other, each in its own environment and on its own buffer:
the tables after the last one, or the first fault. -/
inductive Received (host : Host) :
    Registry → List (Env × List UInt8) → Except Fault Registry → Prop
  | nil {reg : Registry} : Received host reg [] (.ok reg)
  | cons {reg reg₁ : Registry} {env : Env} {buf : List UInt8} {bufs : List (Env × List UInt8)}
      {r : Except Fault Registry} {fuel : ℕ} {code : ℤ}
      (hca : dbtableRecv host env fuel reg buf = some (.ok (reg₁, code)))
      (hrs : Received host reg₁ bufs r) : Received host reg ((env, buf) :: bufs) r
  | fault {reg : Registry} {env : Env} {buf : List UInt8} {bufs : List (Env × List UInt8)}
      {fuel : ℕ} {f : Fault} (hca : dbtableRecv host env fuel reg buf = some (.error f)) :
    Received host reg ((env, buf) :: bufs) (.error f)

theorem Received.append {bufs bufs' : List (Env × List UInt8)} {reg₁ : Registry}
    {r : Except Fault Registry} (h : Received host reg bufs (.ok reg₁))
    (h' : Received host reg₁ bufs' r) : Received host reg (bufs ++ bufs') r := by
  generalize ho : (Except.ok reg₁ : Except Fault Registry) = out at h
  induction h with
  | nil =>
    cases ho
    exact h'
  | cons hca _ ih => exact .cons hca (ih ho)
  | fault hca => simp at ho

end

end Chanos.Database

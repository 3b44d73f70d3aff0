import Chanos.Database.Delivery
import Chanos.Lib.RelayedRegister

/-!
# Replicas

Two databases that hold copies of one table exchange the first `sync_size` bytes of its entries.
What they have to agree on is `synced`, the entries by their ids with only these bytes. Each id is a
register, and a message does to the receiver's register what it says (`recvEntry_regMsg`).
-/

namespace Chanos.Database

open Lib List Option Function Bytes Nat

variable {σ σ' : Schema} {c : Core σ}

def synced (c : Core σ) (id : ℕ) : Option (List UInt8) :=
  (dbTableGetEntry c id).map (head σ.sync_size)

theorem synced_of_get {id : ℕ} {o : Option σ.Data} (h : dbTableGetEntry c id = o) :
    synced c id = o.map (head σ.sync_size) :=
  congrArg _ h

theorem synced_eq (hc : Occupancy c) (id : ℕ) :
    synced c id = (c.entries id).real_data.map (head σ.sync_size) :=
  synced_of_get (hc.get_eq id)

theorem isSome_synced (hc : Occupancy c) (id : ℕ) :
    (synced c id).isSome = (c.entries id).exist := by
  rw [synced, isSome_map, hc.isSome_get]

theorem agree_of_synced {c' : Core σ'} (hc : Occupancy c) (hc' : Occupancy c') {id : ℕ}
    (h : synced c' id = synced c id) :
    (c'.entries id).exist = (c.entries id).exist ∧
      (c'.entries id).real_data.map (head σ'.sync_size) =
        (c.entries id).real_data.map (head σ.sync_size) := by
  rw [← isSome_synced hc, ← isSome_synced hc', ← synced_eq hc, ← synced_eq hc', h]
  exact ⟨rfl, rfl⟩

structure SameWire (σ σ' : Schema) : Prop where
  name : σ'.name = σ.name
  entry_num : σ'.entry_num = σ.entry_num
  entry_size : σ'.entry_size = σ.entry_size
  sync_size : σ'.sync_size = σ.sync_size
  convert : ∀ (d : σ.Data) (d' : σ'.Data), d'.toList = (σ.hton d).toList →
    (σ'.ntoh d').toList = d.toList

theorem SameWire.fits (hsame : SameWire σ σ') (hf : σ.Fits) : σ'.Fits := by
  unfold Schema.Fits
  rw [hsame.entry_size]
  exact hf

/-! ## One entry -/

def SyncOp.regMsg (op : SyncOp) (bytes : List UInt8) : RegMsg (List UInt8) :=
  match op with
  | .itemUpdate => .upd bytes
  | .itemDel => .del
  | _ => .add bytes

def SyncOp.IsItem (op : SyncOp) : Prop := op = .itemAdd ∨ op = .itemUpdate ∨ op = .itemDel

section

variable {t : Table σ} {entry_id : ℕ}

theorem synced_update {c c' : Core σ} {o : Option σ.Data}
    (h : dbTableGetEntry c' = update (dbTableGetEntry c) entry_id o) :
    synced c' = update (synced c) entry_id (o.map (head σ.sync_size)) := by
  funext j
  unfold synced
  rw [h, update_apply, update_apply]
  split_ifs <;> rfl

theorem synced_update_none {c : Core σ} (h : dbTableGetEntry c entry_id = none) :
    update (synced c) entry_id none = synced c := by
  have hno : synced c entry_id = none := synced_of_get h
  rw [← hno, update_eq_self]

theorem synced_recvEffect {c c' : Core σ} {op : SyncOp} {d : σ.Data} (ho : Occupancy c)
    (hop : op.IsItem) (hlt : entry_id < σ.entry_num)
    (h : dbTableGetEntry c' = (recvEffect c op entry_id (.ok d)).apply (dbTableGetEntry c)) :
    synced c' = update (synced c) entry_id
      ((op.regMsg (head σ.sync_size (σ.ntoh d))).apply (synced c entry_id)) := by
  have hkp : dbTableGetEntry c entry_id = none → dbTableGetEntry c' = dbTableGetEntry c →
      synced c' = update (synced c) entry_id none := by
    intro hno hc'
    rw [synced_update_none hno]
    exact funext fun id => synced_of_get (congrFun hc' id)
  -- An entry that is there is completed, which keeps the synchronised bytes that were received.
  have hmr : ∀ predata, dbTableGetEntry c entry_id = some predata →
      dbTableGetEntry c' = (mergeEffect c entry_id d).apply (dbTableGetEntry c) →
      synced c' = update (synced c) entry_id (some (head σ.sync_size (σ.ntoh d))) := by
    intro predata hp hc'
    rw [mergeEffect, hp] at hc'
    rw [synced_update hc', map_some, head_splice]
  rcases hop with rfl | rfl | rfl
  · unfold recvEffect at h
    dsimp only at h
    split at h
    · rename_i halc
      cases hget : dbTableGetEntry c entry_id with
      | none =>
        have hf := ho.mem_free.mpr ⟨hlt, hget⟩
        unfold dbTableInternalAlloc at halc
        rw [if_pos hf] at halc
        simp at halc
      | some predata => exact hmr predata hget h
    · exact synced_update h
  · cases hget : dbTableGetEntry c entry_id with rw [synced_of_get hget]
    | none =>
      rw [recvEffect, mergeEffect, hget] at h
      exact hkp hget h
    | some predata => exact hmr predata hget h
  · cases hget : dbTableGetEntry c entry_id with rw [recvEffect, deleteEffect, hget] at h
    | none => exact hkp hget h
    | some old => exact synced_update h

theorem recvEntry_regMsg (env : Env) {op : SyncOp} (d : σ.Data) (op_ret : ℤ)
    (ho : Occupancy t.toCore) (hop : op.IsItem) (hlt : entry_id < σ.entry_num) (hf : σ.Fits) :
    ∃ out eff, recvEntry env t op entry_id (.ok d) op_ret = .ok out ∧
      HasEffect env false t none eff out.table.1 ∧
      synced out.table.1.toCore = update (synced t.toCore) entry_id
        ((op.regMsg (head σ.sync_size (σ.ntoh d))).apply (synced t.toCore entry_id)) := by
  rcases recvEntry_ok_or env entry_id op_ret t op d with ⟨out, hou⟩ | hn
  · cases out with
    | next t' r w =>
      have he := recvEntry_hasEffect ho hou
      exact ⟨_, _, hou, he, synced_recvEffect ho hop hlt (he.core.get_eq ho)⟩
    | ret t' code =>
      -- What is refused is the update of an entry that is not there.
      obtain ⟨⟨rfl, -⟩, hno, -⟩ := recvEntry_ret hou
      obtain ⟨rfl, -⟩ := Classical.not_imp.mp fun hu => recvEntry_accepted ho hlt hu _ _ hou
      refine ⟨_, .none, hou, .skip, ?_⟩
      rw [synced_of_get hno]
      exact (synced_update_none hno).symm
  · exact absurd (.inl hf) hn.2

end

/-! ## Blocks of entries -/

def Schema.blockMsg (σ : Schema) (op : SyncOp) (start_id : ℕ) (ds : List σ.Data) : SyncMsg where
  header := syncHeader σ op start_id ds.length
  payload := ds.flatMap fun d => (σ.wireData d).toList

section

variable {op : SyncOp} {start_id n : ℕ} {reg : Registry}

theorem syncHeader_toNat (op : SyncOp) (hst : start_id + n ≤ σ.entry_num)
    (hlen : headerSize + σ.entry_size * n < 2 ^ 31) :
    (syncHeader σ op start_id n).start_index.toNat = start_id ∧
      (syncHeader σ op start_id n).entry_num.toNat = n ∧
      (syncHeader σ op start_id n).entry_len.toNat = σ.entry_size ∧
      (syncHeader σ op start_id n).total_len.toNat = headerSize + σ.entry_size * n := by
  have hn := σ.entry_num_lt
  have hsz := σ.entry_size_lt
  have hwd : ∀ m, m < 2 ^ 32 → (UInt32.ofNat m).toNat = m := fun m hm =>
    UInt32.toNat_ofNat_of_lt' hm
  exact ⟨hwd _ (by omega), hwd _ (by omega), hwd _ (by omega), hwd _ (by omega)⟩

theorem blockLen_lt (hn : n ≤ σ.sendNum) : headerSize + σ.entry_size * n < 2 ^ 31 := by
  have hmu : σ.entry_size * n ≤ maxSendSize - headerSize :=
    (mul_le_mul_left _ hn).trans (mul_div_le _ _)
  have hma : headerSize + (maxSendSize - headerSize) < 2 ^ 31 := by decide
  omega

theorem length_wireData (ds : List σ.Data) :
    (ds.flatMap fun d => (σ.wireData d).toList).length = ds.length * σ.entry_size := by
  induction ds with
  | nil => simp
  | cons d ds ih =>
    rw [flatMap_cons, length_append, List.Vector.toList_length, ih, length_cons,
      add_one_mul, add_comm]

theorem SyncOp.IsItem.ofCode (h : op.IsItem) : SyncOp.ofCode op.code = op := by
  rcases h with rfl | rfl | rfl <;> rfl

section

variable (hsame : SameWire σ σ')
include hsame

theorem head_ntoh {d : σ.Data} {d' : σ'.Data} (h : d'.toList = (σ.wireData d).toList) :
    head σ'.sync_size (σ'.ntoh d') = head σ.sync_size d := by
  have hb : (σ'.ntoh d').toList =
      (splice σ.sync_size d (zero σ.entry_size)).toList := hsame.convert _ _ h
  calc head σ'.sync_size (σ'.ntoh d')
      = (Bytes.splice σ.sync_size d (Bytes.zero σ.entry_size)).toList.take σ.sync_size := by
        rw [Bytes.head, hb, hsame.sync_size]
    _ = head σ.sync_size d := head_splice _ _ _

theorem SameWire.exists_data (d : σ.Data) : ∃ d' : σ'.Data, d'.toList = (σ.wireData d).toList :=
  ⟨⟨(σ.wireData d).toList, by rw [List.Vector.toList_length, hsame.entry_size]⟩, rfl⟩

variable (hst : start_id + n ≤ σ.entry_num) (hlen : headerSize + σ.entry_size * n < 2 ^ 31)
include hst hlen

theorem recvEntries_cons (hop : op.IsItem) (env : Env) (before ds : List σ.Data)
    {d : σ.Data} {d' : σ'.Data} (hd' : d'.toList = (σ.wireData d).toList)
    (hn : before.length + (ds.length + 1) = n) (t : Table σ') (op_ret : ℤ) :
    recvEntries env (syncHeader σ op start_id n)
        ((before ++ d :: ds).flatMap fun d => (σ.wireData d).toList) (ds.length + 1) before.length t
        op_ret = recvEntry env t op (start_id + before.length) (.ok d') op_ret >>= fun
      | .next t₁ r _ => recvEntries env (syncHeader σ op start_id n)
        ((before ++ d :: ds).flatMap fun d => (σ.wireData d).toList) ds.length (before.length + 1) t₁ r
      | .ret t₁ code => .ok (.ret t₁ code) := by
  obtain ⟨hst', hnu', hlen', -⟩ := syncHeader_toNat op hst hlen
  have hnu := σ.entry_num_lt
  have hid : (start_id + before.length) % 2 ^ 32 = start_id + before.length :=
    mod_eq_of_lt (by omega)
  have hlt : ¬ σ'.entry_num ≤ start_id + before.length := by
    rw [hsame.entry_num]
    omega
  -- The entry lies in the block behind those that are done.
  have ha : access ((before ++ d :: ds).flatMap fun d => (σ.wireData d).toList)
      (before.length * σ.entry_size : ℕ) σ'.entry_size = .ok d' := by
    rw [flatMap_append, flatMap_cons, ← append_assoc, ← hd']
    exact access_append _ _ d' (by rw [length_wireData])
  have hc : SyncOp.ofCode (syncHeader σ op start_id n).op = op := hop.ofCode
  rw [recvEntries, hst', hlen', hid, if_neg hlt, ha, hc]
  rcases recvEntry env t op (start_id + before.length) (.ok d') op_ret with _ | _ | _ <;> rfl

theorem recvEntries_block (hft : σ'.Fits) (env : Env) {v : ℕ → Option (List UInt8)}
    (before ds : List σ.Data) (hn : before.length + ds.length = n)
    (hv : ∀ i < ds.length, (ds.map (head σ.sync_size))[i]? = v (start_id + before.length + i))
    (t : Table σ') (op_ret : ℤ) (ho : Occupancy t.toCore) :
    ∃ t' r, recvEntries env (syncHeader σ .itemAdd start_id n)
        ((before ++ ds).flatMap fun d => (σ.wireData d).toList) ds.length before.length t op_ret =
          .ok (.next t' r none) ∧
      Occupancy t'.toCore ∧
      ∀ id, synced t'.toCore id =
        if start_id + before.length ≤ id ∧ id < start_id + before.length + ds.length then v id
        else synced t.toCore id := by
  induction ds generalizing before t op_ret with
  | nil => exact ⟨t, op_ret, rfl, ho, fun id => (if_neg (by simp)).symm⟩
  | cons d ds ih =>
    rw [length_cons] at hn
    have hlt : start_id + before.length < σ'.entry_num := by
      rw [hsame.entry_num]
      omega
    obtain ⟨d', hd'⟩ := hsame.exists_data d
    obtain ⟨out, eff, hent, he, hsy⟩ := recvEntry_regMsg env d' op_ret ho (.inl rfl) hlt hft
    cases out with
    | ret t₁ code => exact absurd hent (recvEntry_accepted ho hlt (fun h => by cases h) t₁ code)
    | next t₁ r₁ w =>
      have ha : before ++ d :: ds = before ++ [d] ++ ds := by simp
      have hdo : (before ++ [d]).length = before.length + 1 := by simp
      have hrs : ∀ i < ds.length,
          (ds.map (head σ.sync_size))[i]? = v (start_id + (before ++ [d]).length + i) := by
        intro i hi
        have hsu := hv (i + 1) (by rw [length_cons]; omega)
        rwa [map_cons, getElem?_cons_succ, add_left_comm, add_comm i, add_assoc start_id, ← hdo] at hsu
      obtain ⟨t', r, hrest, ho', hsy'⟩ := ih (before ++ [d]) (by rw [hdo]; omega) hrs t₁ r₁
        (he.core.occupancy ho)
      refine ⟨t', r, ?_, ho', fun id => ?_⟩
      · rw [length_cons,
          recvEntries_cons hsame hst hlen (.inl rfl) env before ds hd' hn t op_ret, hent, ha, ← hdo]
        exact hrest
      · have hf : some (head σ.sync_size d) = v (start_id + before.length) := hv 0 (by simp)
        have hsy : synced t₁.toCore = update (synced t.toCore) _ (some _) := hsy
        rw [hsy', hdo, length_cons, hsy, head_ntoh hsame hd', hf]
        by_cases hid : id = start_id + before.length
        · rw [if_neg (by omega), if_pos (by omega), hid, update_self]
        · rw [update_of_ne hid]
          exact if_congr (by omega) rfl rfl

end

variable {host : Host} {schemas : List Schema} {ds : List σ.Data}
  (hst : start_id + ds.length ≤ σ.entry_num) (hlen : headerSize + σ.entry_size * ds.length < 2 ^ 31)

include hst hlen in
theorem blockMsg_not_stops (hop : op.IsItem)
    (hnm : schemaOf schemas (strncpyName σ.name) = some σ') :
    ¬ (σ.blockMsg op start_id ds).Stops host schemas := by
  obtain ⟨-, hn', hlen', ht'⟩ := syncHeader_toNat op hst hlen
  rintro (h | h | h)
  · change op.code = SyncOp.complete.code at h
    rcases hop with rfl | rfl | rfl <;> cases h
  · nomatch h.symm.trans hnm
  · -- The length that the header names is that of the entries.
    have ht : signed32 (syncHeader σ op start_id ds.length).total_len =
        (headerSize + σ.entry_size * ds.length : ℕ) := by
      rw [signed32_of_lt (by omega), ht']
    have hmo : 2 ^ 32 ≤ host.size_t.modulus := by cases host.size_t <;> decide
    unfold totalLenShort at h
    rw [decide_eq_true_eq] at h
    change (signed32 (syncHeader σ op start_id ds.length).total_len % _).toNat <
      ((syncHeader σ op start_id ds.length).entry_len.toNat *
        (syncHeader σ op start_id ds.length).entry_num.toNat % 2 ^ 32 + headerSize) %
        host.size_t.modulus at h
    rw [ht, hn', hlen', mod_eq_of_lt (by omega : σ.entry_size * ds.length < 2 ^ 32),
      mod_eq_of_lt (by omega), Int.emod_eq_of_lt (by omega) (by omega), Int.toNat_natCast] at h
    omega

include hst hlen in
theorem blockMsg_framed (hsame : SameWire σ σ')
    (hnm : schemaOf schemas (strncpyName σ.name) = some σ') :
    (σ.blockMsg op start_id ds).Framed host schemas := by
  obtain ⟨-, hn', hlen', ht'⟩ := syncHeader_toNat op hst hlen
  intro _ σ₁ hσ₁
  obtain rfl : σ' = σ₁ := mem_unique hnm hσ₁
  have hp : (σ.blockMsg op start_id ds).payload.length = ds.length * σ.entry_size :=
    length_wireData ds
  rw [hp]
  refine ⟨ht'.trans (by rw [mul_comm]), fun _ => ?_, ?_⟩
  · exact (hsame.entry_size.trans hlen'.symm).le
  · exact (congrArg₂ (· * ·) hn' hlen').le

structure Registry.Holds (reg : Registry) (k : ℕ) (t : Table σ) : Prop where
  table : reg.tables[k]? = some ⟨σ, t⟩
  found : dbGet reg (strncpyName σ.name) = some k

theorem Registry.holds_singleton (t : Table σ) (completions : ℕ) :
    Registry.Holds ⟨[⟨σ, t⟩], completions⟩ 0 t := by
  refine ⟨rfl, ?_⟩
  unfold dbGet
  rw [findIdx?_cons, if_pos (strEq_strncpyName σ.name)]

theorem Registry.Holds.set {k : ℕ} {t : Table σ} (h : reg.Holds k t)
    (t' : Table σ) : ({ reg with tables := reg.tables.set k ⟨σ, t'⟩ } : Registry).Holds k t' := by
  have hk : k < reg.tables.length := (List.getElem?_eq_some_iff.mp h.table).1
  exact ⟨getElem?_set_self hk, (dbGet_congr (Registry.schemas_set h.table) _).trans h.found⟩

include hst hlen

theorem recv_blockMsg (hsame : SameWire σ σ') (host : Host) (env : Env)
    {k : ℕ} {t : Table σ'} (hr : reg.Holds k t) (hop : op.IsItem) {out : EntryOutcome σ'}
    (hent : recvEntries env (syncHeader σ op start_id ds.length)
      (ds.flatMap fun d => (σ.wireData d).toList) ds.length 0 t (-1) = .ok out) :
    ∃ fuel code, dbtableRecv host env fuel reg (σ.blockMsg op start_id ds).wire =
      some (.ok ({ reg with tables := reg.tables.set k ⟨σ', out.table.1⟩ }, code)) := by
  have hnm : schemaOf reg.schemas (strncpyName σ.name) = some σ' := by
    obtain ⟨a, ha, hsc⟩ := schemaOf_of_dbGet hr.found
    obtain rfl : ⟨σ', t⟩ = a := some.inj (hr.table.symm.trans ha)
    rw [← hsame.name]
    exact hsc
  have hfr : (σ.blockMsg op start_id ds).Framed host reg.schemas :=
    blockMsg_framed hst hlen hsame hnm
  have hsp : ¬ (σ.blockMsg op start_id ds).Stops host reg.schemas :=
    blockMsg_not_stops hst hlen hop hnm
  have hwi : (σ.blockMsg op start_id ds).wire.length < 2 ^ 31 := by
    rw [SyncMsg.length_wire]
    change headerSize + (ds.flatMap fun d => (σ.wireData d).toList).length < 2 ^ 31
    rw [length_wireData, mul_comm]
    exact hlen
  -- The message goes to the table that is held.
  obtain ⟨db, a, hd, ha, -, hms⟩ := recvMsg_of_not_stops hsp
  have hf : dbGet reg (σ.blockMsg op start_id ds).header.name = some k := by
    change dbGet reg (strncpyName σ.name) = some k
    rw [← hsame.name]
    exact hr.found
  obtain rfl : k = db := mem_unique hf hd
  obtain rfl : ⟨σ', t⟩ = a := some.inj (hr.table.symm.trans ha)
  have hn : (σ.blockMsg op start_id ds).header.entry_num.toNat = ds.length :=
    (syncHeader_toNat op hst hlen).2.1
  have hent' :
      recvEntries env (σ.blockMsg op start_id ds).header (σ.blockMsg op start_id ds).payload
        ds.length 0 t (-1) = .ok out := hent
  obtain ⟨fuel, hca⟩ := recv_wire env hfr hwi
  rw [recvMsgs, hms, hn, hent'] at hca
  cases out with
  | next t' r w => exact ⟨fuel, 0, hca⟩
  | ret t' code => exact ⟨fuel, code, hca⟩

theorem recv_block (hsame : SameWire σ σ') (hf : σ'.Fits) (host : Host) (env : Env)
    {k : ℕ} {t : Table σ'} (hr : reg.Holds k t) (ho : Occupancy t.toCore)
    {v : ℕ → Option (List UInt8)}
    (hv : ∀ i < ds.length, (ds.map (head σ.sync_size))[i]? = v (start_id + i)) :
    ∃ fuel code t', dbtableRecv host env fuel reg (σ.blockMsg .itemAdd start_id ds).wire =
        some (.ok ({ reg with tables := reg.tables.set k ⟨σ', t'⟩ }, code)) ∧
      Occupancy t'.toCore ∧
      ∀ id, synced t'.toCore id =
        if start_id ≤ id ∧ id < start_id + ds.length then v id else synced t.toCore id := by
  obtain ⟨t', r, hent, ho', hsy⟩ := recvEntries_block hsame hst hlen hf env [] ds (zero_add _) hv t
    (-1) ho
  obtain ⟨fuel, code, hca⟩ := recv_blockMsg hst hlen hsame host env hr (.inl rfl) hent
  exact ⟨fuel, code, t', hca, ho', hsy⟩

end

end Chanos.Database

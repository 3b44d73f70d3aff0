import Chanos.Database.Effect
import Chanos.Lib.Except

/-!
# What the operations amount to

`LocalOp.effect` says which entry a call will write and with what, and `Effect.msgs` which messages
that asks for. `LocalOp.run_hasEffect` proves that a call that returns has made one `CoreStep` with
that effect and has sent those messages. `LocalOp.run_ok` says when it returns.
-/

namespace Chanos.Database

open Lib List Option Except Bytes Database

variable {σ : Schema} {c c' : Core σ} {entry_id : ℕ}

def Schema.wireData (σ : Schema) (data : σ.Data) : σ.Data :=
  σ.hton (splice σ.sync_size data (zero σ.entry_size))

def Schema.entryMsg (σ : Schema) (op : SyncOp) (entry_id : ℕ) (data : σ.Data) : SyncMsg where
  header := syncHeader σ op entry_id 1
  payload := (σ.wireData data).toList

def Schema.emptyMsg (σ : Schema) (entry_id : ℕ) : SyncMsg where
  header := syncHeader σ .itemAdd entry_id 0
  payload := []

def Effect.msgs (σ : Schema) (get : ℕ → Option σ.Data) : Effect σ.entry_size → List SyncMsg
  | .none => []
  | .insert entry_id data =>
    σ.entryMsg .itemAdd entry_id data :: if σ.sendNum = 1 then [σ.emptyMsg (entry_id + 1)] else []
  | .update entry_id data =>
    match get entry_id with
    | some old =>
      if head σ.sync_size data = head σ.sync_size old then []
      else [σ.entryMsg .itemUpdate entry_id data]
    | Option.none => []
  | .delete entry_id =>
    match get entry_id with
    | some old => [σ.entryMsg .itemDel entry_id old]
    | Option.none => []

def Env.emit (env : Env) (σ : Schema) (local_flag : Bool) (msgs : List SyncMsg) : List SyncCall :=
  if env.sends σ local_flag then env.calls σ (-1) msgs else []

open Schema

theorem syncMsg_one {c : Core σ} {data : σ.Data} (op : SyncOp)
    (h : dbTableGetEntry c entry_id = some data) :
    syncMsg c op entry_id 1 = σ.entryMsg op entry_id data := by
  have hent : syncEntry c (entry_id + 0) = σ.wireData data := by
    rw [Nat.add_zero, syncEntry, dbTableSyncGetEntry, h]
    rfl
  rw [syncMsg, entryMsg, range_one, flatMap_cons, flatMap_nil, append_nil, hent]

theorem pieces_one {k : ℕ} (hk : 0 < k) (start_id : ℕ) :
    pieces k start_id 1 = (start_id, 1) :: if k = 1 then [(start_id + 1, 0)] else [] := by
  unfold pieces
  split_ifs with h1
  · subst h1
    rfl
  · have hd : 1 / k = 0 := Nat.div_eq_of_lt (by omega)
    have hmo : 1 % k = 1 := Nat.mod_eq_of_lt (by omega)
    rw [hd, hmo]
    simp

/-! ## The mutators -/

section

variable {env : Env} {t t' : Table σ} {entry_id : ℕ} {old data : σ.Data} {orig_index : Option ℕ}
  {local_flag : Bool}

theorem insertEntry_spec (hlt : entry_id < σ.entry_num)
    (h : dbTableInsertEntry env t entry_id data orig_index local_flag = .ok t') :
    t'.toCore = t.toCore.insertEntry (env.malloc _) entry_id data orig_index ∧
      t'.sent = t.sent ++ env.emit σ local_flag
        ((Effect.insert entry_id data).msgs σ (dbTableGetEntry t.toCore)) := by
  have hget :
      dbTableGetEntry (t.toCore.insertEntry (env.malloc _) entry_id data orig_index) entry_id =
        some data := by
    unfold dbTableGetEntry
    rw [Core.insertEntry_entries, Function.update_self, if_neg (by omega), if_pos rfl]
  unfold dbTableInsertEntry at h
  rw [if_neg (by omega)] at h
  unfold Env.emit
  split_ifs at h ⊢ with hse
  · -- The message goes out in pieces, the first of which is the entry.
    by_cases hf : σ.Fits
    · rw [syncDataInsert_eq _ _ _ _ _ hf] at h
      obtain ⟨h1, -, h3⟩ := foldl_insertPiece_spec env
        { t with toCore := t.toCore.insertEntry (env.malloc _) entry_id data orig_index } (-1)
        (pieces σ.sendNum entry_id 1)
      cases h
      refine ⟨h1, h3.trans ?_⟩
      rw [pieces_one hf.sendNum_pos, map_cons, syncMsg_one _ hget, Effect.msgs]
      congr 3
      split_ifs <;> rfl
    · rw [syncDataInsert_error _ _ _ _ _ hf] at h
      simp at h
  · cases h
    exact ⟨rfl, (append_nil _).symm⟩

theorem insertEntry_ok (t : Table σ) (entry_id : ℕ) (data : σ.Data)
    (orig_index : Option ℕ) (h : σ.Fits ∨ env.sends σ local_flag = false) :
    ∃ t', dbTableInsertEntry env t entry_id data orig_index local_flag = .ok t' := by
  unfold dbTableInsertEntry
  split_ifs with hid hse
  · exact ⟨_, rfl⟩
  · rcases h with h | h
    · exact ⟨_, syncDataInsert_eq _ _ _ _ _ h⟩
    · rw [h] at hse
      exact absurd hse Bool.false_ne_true
  · exact ⟨_, rfl⟩

variable (ho : Occupancy t.toCore)
include ho

theorem updateEntry_spec {r : Table σ × ℤ} (hget : dbTableGetEntry t.toCore entry_id = some old)
    (hr : dbTableUpdateEntry env t entry_id data orig_index local_flag = r) :
    r.1.toCore = t.toCore.updateEntry (env.malloc _) entry_id old data orig_index ∧
      r.1.sent = t.sent ++ env.emit σ local_flag
        ((Effect.update entry_id data).msgs σ (dbTableGetEntry t.toCore)) ∧ r.2 = 0 := by
  have hlt := ho.lt_of_get hget
  have hre : (t.entries entry_id).real_data = some old := by rw [← ho.get_eq, hget]
  have hn : dbTableGetEntry (t.toCore.updateEntry (env.malloc _) entry_id old data orig_index)
      entry_id = some data := by
    unfold dbTableGetEntry
    rw [Core.updateEntry_entries, Function.update_self, if_neg (by omega),
      if_pos (ho.exist_of_get hget)]
  obtain ⟨h1, -, h3⟩ := syncData_spec env
    { t with toCore := t.toCore.updateEntry (env.malloc _) entry_id old data orig_index }
    .itemUpdate entry_id 1 (-1)
  rw [syncMsg_one _ hn] at h3
  unfold dbTableUpdateEntry at hr
  rw [if_neg (by omega), hre] at hr
  dsimp only at hr
  unfold Env.emit
  rw [Effect.msgs, hget]
  dsimp only
  by_cases hh : head σ.sync_size data = head σ.sync_size old
  · rw [bne_eq_false_iff_eq.mpr hh, Bool.and_false, if_neg Bool.false_ne_true] at hr
    subst hr
    refine ⟨rfl, ?_, rfl⟩
    rw [if_pos hh]
    unfold Env.calls
    split_ifs <;> simp
  · rw [bne_iff_ne.mpr hh, Bool.and_true] at hr
    rw [if_neg hh]
    split_ifs at hr ⊢ with hse
    · subst hr
      exact ⟨h1, h3, rfl⟩
    · subst hr
      exact ⟨rfl, (append_nil _).symm, rfl⟩

theorem updateEntry_none (hget : dbTableGetEntry t.toCore entry_id = none) :
    dbTableUpdateEntry env t entry_id data orig_index local_flag = (t, -1) := by
  have hr : (t.entries entry_id).real_data = none := by rw [← ho.get_eq, hget]
  unfold dbTableUpdateEntry
  rw [hr]
  split_ifs <;> rfl

theorem deleteEntry_spec (env : Env) (local_flag : Bool)
    (hget : dbTableGetEntry t.toCore entry_id = some old) :
    (dbTableDeleteEntry env t entry_id local_flag).toCore = t.toCore.deleteEntry entry_id ∧
      (dbTableDeleteEntry env t entry_id local_flag).sent = t.sent ++ env.emit σ local_flag
        ((Effect.delete entry_id).msgs σ (dbTableGetEntry t.toCore)) := by
  have hlt := ho.lt_of_get hget
  obtain ⟨h1, -, h3⟩ := syncData_spec env t .itemDel entry_id 1 (-1)
  rw [syncMsg_one _ hget] at h3
  unfold dbTableDeleteEntry Env.emit
  rw [if_neg (by omega), if_pos (ho.exist_of_get hget), Effect.msgs, hget]
  dsimp only
  split_ifs
  · exact ⟨by rw [dbtableSyncDataDelete, h1], h3⟩
  · exact ⟨rfl, (append_nil _).symm⟩

theorem deleteEntry_none (hget : dbTableGetEntry t.toCore entry_id = none) :
    dbTableDeleteEntry env t entry_id local_flag = t := by
  have hex : (t.entries entry_id).exist = false := by rw [← ho.isSome_get, hget, isSome_none]
  unfold dbTableDeleteEntry
  rw [hex, if_neg Bool.false_ne_true, ite_self]

end

/-! ## The ends of the operations -/

def rewriteEffect (c : Core σ) (entry_id : ℕ) (data : σ.Data) : Effect σ.entry_size :=
  if (dbTableGetEntry c entry_id).isSome then .update entry_id data else .none

def deleteEffect (c : Core σ) (entry_id : ℕ) : Effect σ.entry_size :=
  if (dbTableGetEntry c entry_id).isSome then .delete entry_id else .none

def insertEffect (alloc : Option (ℕ × Core σ)) (data : σ.Data) : Effect σ.entry_size :=
  match alloc with
  | some (entry_id, _) => .insert entry_id data
  | none => .none

/-- A call has the effect `eff`: its core has made a step with that effect, and it has sent the
messages of it. -/
structure HasEffect (env : Env) (local_flag : Bool) (t : Table σ) (site : Option (ℕ × ℕ))
    (eff : Effect σ.entry_size) (t' : Table σ) : Prop where
  core : CoreStep t.toCore site eff t'.toCore
  sent : t'.sent = t.sent ++ env.emit σ local_flag (eff.msgs σ (dbTableGetEntry t.toCore))

section

variable {env : Env} {local_flag : Bool} {t t' : Table σ} {i entry_id : ℕ} {data old : σ.Data}
  {site : Option (ℕ × ℕ)} {c₁ : Core σ}

theorem HasEffect.skip : HasEffect env local_flag t site .none t where
  core := .skip
  sent := by
    unfold Env.emit Env.calls
    split_ifs <;> simp [Effect.msgs]

theorem insertVia_ok (t : Table σ) (i entry_id : ℕ) (data : σ.Data) (clear : Bool)
    (h : σ.Fits ∨ env.sends σ true = false) :
    ∃ t', insertVia env t i entry_id data clear = .ok t' := by
  obtain ⟨t', ht'⟩ := insertEntry_ok t entry_id data (some i) h
  exact ⟨_, by rw [insertVia, ht']; rfl⟩

variable (ho : Occupancy t.toCore)
include ho

theorem updateEntry_hasEffect (orig_index : Option ℕ)
    (horig : ∀ x i ix, dbTableGetEntry t.toCore entry_id = some x → orig_index = some i →
      σ.index_list[i]? = some ix → ix = .array ∨ ix.cmp data x = true)
    (hco : t'.toCore = (dbTableUpdateEntry env t entry_id data orig_index local_flag).1.toCore)
    (hse : t'.sent = (dbTableUpdateEntry env t entry_id data orig_index local_flag).1.sent) :
    HasEffect env local_flag t site (rewriteEffect t.toCore entry_id data) t' := by
  unfold rewriteEffect
  cases hget : dbTableGetEntry t.toCore entry_id with
  | none =>
    rw [updateEntry_none ho hget] at hco hse
    have hsk : HasEffect env local_flag t site .none t := .skip
    exact ⟨by rw [hco]; exact .skip, by rw [hse]; exact hsk.sent⟩
  | some x =>
    obtain ⟨h1, h2, -⟩ := updateEntry_spec ho hget
      (rfl : dbTableUpdateEntry env t entry_id data orig_index local_flag = _)
    refine ⟨?_, by rw [hse, h2]; rfl⟩
    rw [hco, h1]
    exact .update _ hget fun i ix hi hix => horig x i ix hget hi hix

theorem updateVia_hasEffect
    (horig : ∀ x ix, dbTableGetEntry t.toCore entry_id = some x → σ.index_list[i]? = some ix →
      ix = .array ∨ ix.cmp data x = true) :
    HasEffect env true t site (rewriteEffect t.toCore entry_id data)
      (updateVia env t i entry_id data old) := by
  refine updateEntry_hasEffect ho (some i) ?_ ?_ ?_
  · intro x j ix hx hj hix
    obtain rfl : i = j := some.inj hj
    exact horig x ix hx hix
  all_goals
    unfold updateVia
    dsimp only
    split_ifs <;> simp

theorem insertEntry_hasEffect {t₁ : Table σ} {orig_index : Option ℕ}
    (hfr : entry_id ∈ t.entry_alloc_list)
    (hlk : Linked t.toCore entry_id site orig_index c₁)
    (h : dbTableInsertEntry env { t with toCore := c₁.take entry_id } entry_id data orig_index
      local_flag = .ok t₁)
    (hco : t'.toCore = t₁.toCore) (hse : t'.sent = t₁.sent) :
    HasEffect env local_flag t site (.insert entry_id data) t' := by
  obtain ⟨hlt, -⟩ := ho.mem_free.mp hfr
  obtain ⟨h1, h2⟩ := insertEntry_spec hlt h
  exact ⟨by rw [hco, h1]; exact .insert _ hfr hlk, by rw [hse, h2]; rfl⟩

theorem insertVia_hasEffect {clear : Bool} (hfr : entry_id ∈ t.entry_alloc_list)
    (hlk : Linked t.toCore entry_id site (some i) c₁)
    (h : insertVia env { t with toCore := c₁.take entry_id } i entry_id data clear = .ok t') :
    HasEffect env true t site (.insert entry_id data) t' := by
  obtain ⟨t₁, hi, ht'⟩ := bind_eq_ok.mp h
  have ht' := ok.inj ht'
  refine insertEntry_hasEffect ho hfr hlk hi ?_ ?_
  all_goals
    rw [← ht']
    split_ifs <;> simp

theorem deleteEntry_hasEffect {t₂ : Table σ} {orig_index : Option ℕ}
    (hunl : Unlinked t.toCore entry_id orig_index c₁)
    (hget : dbTableGetEntry t.toCore entry_id = some old)
    (hco : t₂.toCore = c₁.freeEntryIndex (env.malloc _) entry_id orig_index)
    (hse : t₂.sent = t.sent) :
    HasEffect env local_flag t site (.delete entry_id)
      (dbTableDeleteEntry env t₂ entry_id local_flag) := by
  obtain ⟨he, hl, hu⟩ := hunl.store
  obtain ⟨he', hl', hu'⟩ := Core.freeEntryIndex_store c₁ (env.malloc _) entry_id orig_index
  rw [← hco] at he' hl' hu'
  have hocc₂ : Occupancy t₂.toCore := ho.congr (he'.trans he) (hl'.trans hl) (hu'.trans hu)
  have hsm : dbTableGetEntry t₂.toCore = dbTableGetEntry t.toCore :=
    getEntry_congr (he'.trans he)
  obtain ⟨h1, h2⟩ := deleteEntry_spec hocc₂ env local_flag ((congrFun hsm _).trans hget)
  refine ⟨?_, by rw [h2, hse, hsm]⟩
  rw [h1, hco]
  exact .delete _ hget hunl

theorem deleteVia_hasEffect {b : ℕ} {l : List ℕ} (hl : AddedTo entry_id l (t.chains i b)) :
    HasEffect env true t site (deleteEffect t.toCore entry_id)
      (deleteVia env { t with toCore := t.toCore.setChain i b l } i entry_id old).1 := by
  obtain ⟨t₂, ht₂, hco, hse⟩ : ∃ t₂ : Table σ,
      (deleteVia env { t with toCore := t.toCore.setChain i b l } i entry_id old).1 =
          dbTableDeleteEntry env t₂ entry_id true ∧
        t₂.toCore = (t.toCore.setChain i b l).freeEntryIndex (env.malloc _) entry_id (some i) ∧
        t₂.sent = t.sent :=
    ⟨_, rfl, by rw [callHandler_toCore]; rfl, by rw [callHandler_sent]; rfl⟩
  rw [ht₂]
  unfold deleteEffect
  cases hget : dbTableGetEntry t.toCore entry_id with
  | none =>
    -- The node is stale: it goes, and nothing else happens.
    have hsm : dbTableGetEntry (t.toCore.setChain i b l) = dbTableGetEntry t.toCore :=
      getEntry_congr rfl
    have hco' : t₂.toCore = t.toCore.setChain i b l := by
      rw [hco, Core.freeEntryIndex, hsm, hget]
    have hocc₂ : Occupancy t₂.toCore := by
      rw [hco']
      exact ho.congr rfl rfl rfl
    have hget₂ : dbTableGetEntry t₂.toCore entry_id = none := by rw [hco', hsm, hget]
    have hsk : HasEffect env true t site .none t := .skip
    rw [deleteEntry_none hocc₂ hget₂]
    exact ⟨by rw [hco']; exact .dropNode hget hl, by rw [hse]; exact hsk.sent⟩
  | some x => exact deleteEntry_hasEffect ho (.on hl) hget hco hse

end

/-! ## The effect of each operation -/

section

variable (env : Env) (t : Table σ) (i : ℕ) (data : σ.Data)

def chainInsertEffect (found : Option (ℕ × σ.Data)) : Effect σ.entry_size :=
  match found with
  | some (entry_id, _) => rewriteEffect t.toCore entry_id data
  | none => insertEffect (osalTableEntryIdAlloc t.toCore) data

def chainDeleteEffect (b : ℕ) (equal : σ.Data → Bool) (buf : σ.Data) : Effect σ.entry_size :=
  match scan (dbTableGetEntry t.toCore) equal buf (t.chains i b) with
  | none => .none
  | some (entry_id, _) => deleteEffect t.toCore entry_id

def hashInsertEffect (list_prev : Option (σ.Data → σ.Data → Bool)) : Effect σ.entry_size :=
  match σ.hashIndex i with
  | none => .none
  | some h =>
    match h.bucket data with
    | none => .none
    | some b => chainInsertEffect t data (insertFound env t i data h b list_prev)

def hashDeleteEffect : Effect σ.entry_size :=
  match σ.hashIndex i with
  | none => .none
  | some h =>
    match h.bucket data with
    | none => .none
    | some b => chainDeleteEffect t i b (fun x => h.hash_cmp x data) (env.malloc _ .caller)

variable (sequence_index : ℕ)

def sequenceInsertEffect : Effect σ.entry_size :=
  match σ.sequenceIndex i with
  | none => .none
  | some s =>
    match s.bucketAt sequence_index with
    | none => .none
    | some b =>
      chainInsertEffect t data (scan (dbTableGetEntry t.toCore) (s.sequence_cmp data)
        (env.malloc _ .caller) (t.chains i b))

def sequenceDeleteEffect (ret_data : Option σ.Data) : Effect σ.entry_size :=
  match σ.sequenceIndex i with
  | none => .none
  | some s =>
    match s.bucketAt sequence_index with
    | none => .none
    | some b =>
      let walk := sequenceDeleteWalk data s ret_data
      chainDeleteEffect t i b walk.1 walk.2

end

def LocalOp.effect (env : Env) (t : Table σ) : LocalOp σ.entry_size → Effect σ.entry_size
  | hashInsert i data => hashInsertEffect env t i data none
  | hashInsertSeq i data list_prev => hashInsertEffect env t i data list_prev
  | hashDelete i data => hashDeleteEffect env t i data
  | hashUpdate i data =>
    match dbtableHashSearch env t i data none with
    | .error _ => .none
    | .ok _ => hashInsertEffect env t i data none
  | sequenceInsert i sequence_index data => sequenceInsertEffect env t i data sequence_index
  | sequenceDelete i sequence_index data ret_data =>
    sequenceDeleteEffect t i data sequence_index ret_data
  | sequenceUpdate i sequence_index data =>
    match dbtableSequenceSearch t i sequence_index data with
    | none => .none
    | some _ => sequenceInsertEffect env t i data sequence_index
  | arrayInsert i data =>
    if σ.isArray i then insertEffect (osalTableEntryIdAlloc t.toCore) data else .none
  | arrayInsertByid i array_index data =>
    if σ.isArray i then
      insertEffect ((dbTableInternalAlloc t.toCore array_index).map fun c => (array_index, c)) data
    else .none
  | arrayInsertAfter i data start_id =>
    if σ.isArray i then insertEffect (dbTableInternalAllocAfter t.toCore start_id) data else .none
  | arrayDelete i array_index => if σ.isArray i then deleteEffect t.toCore array_index else .none
  | arrayUpdate i array_index data =>
    if σ.isArray i then rewriteEffect t.toCore array_index data else .none

def LocalOp.site (σ : Schema) : LocalOp σ.entry_size → Option (ℕ × ℕ)
  | hashInsert i data | hashInsertSeq i data _ | hashDelete i data | hashUpdate i data =>
    (σ.hashIndex i).bind fun h => (h.bucket data).map fun b => (i, b)
  | sequenceInsert i sequence_index _ | sequenceDelete i sequence_index _ _
  | sequenceUpdate i sequence_index _ =>
    (σ.sequenceIndex i).bind fun s => (s.bucketAt sequence_index).map fun b => (i, b)
  | arrayInsert _ _ | arrayInsertByid _ _ _ | arrayInsertAfter _ _ _ | arrayDelete _ _
  | arrayUpdate _ _ _ => none

theorem Schema.hashIndex_eq_some {i : ℕ} {h : HashIndex σ.entry_size} :
    σ.hashIndex i = some h ↔ σ.index_list[i]? = some (.hash h) := by
  unfold hashIndex
  split <;> simp_all

theorem Schema.sequenceIndex_eq_some {i : ℕ} {s : SequenceIndex σ.entry_size} :
    σ.sequenceIndex i = some s ↔ σ.index_list[i]? = some (.sequence s) := by
  unfold sequenceIndex
  split <;> simp_all

theorem Schema.isArray_iff {i : ℕ} : σ.isArray i = true ↔ σ.index_list[i]? = some .array := by
  unfold isArray
  split <;> simp_all

theorem entryIdAlloc_eq_some (h : osalTableEntryIdAlloc c = some (entry_id, c')) :
    entry_id ∈ c.entry_alloc_list ∧ c' = c.take entry_id := by
  unfold osalTableEntryIdAlloc at h
  split at h
  · simp at h
  · rename_i id rest hl
    split_ifs at h
    obtain ⟨rfl, rfl⟩ : id = entry_id ∧ c.take id = c' := by simpa using h
    exact ⟨by rw [hl]; exact mem_cons_self, rfl⟩

theorem internalAlloc_eq_some (h : dbTableInternalAlloc c entry_id = some c') :
    entry_id ∈ c.entry_alloc_list ∧ c' = c.take entry_id := by
  unfold dbTableInternalAlloc at h
  split_ifs at h with hme
  exact ⟨hme, (some.inj h).symm⟩

theorem internalAllocAfter_eq_some {input_id entry_id : ℕ}
    (h : dbTableInternalAllocAfter c input_id = some (entry_id, c')) :
    entry_id ∈ c.entry_alloc_list ∧ c' = c.take entry_id := by
  unfold dbTableInternalAllocAfter at h
  rw [map_eq_some_iff] at h
  obtain ⟨id, hf, heq⟩ := h
  obtain ⟨rfl, rfl⟩ : id = entry_id ∧ c.take id = c' := by simpa using heq
  exact ⟨mem_of_find?_eq_some hf, rfl⟩

/-! ## The ends of the operations, together -/

/-- What is done to the table where an operation ends. -/
inductive OpLeaf (env : Env) (t : Table σ) (site : Option (ℕ × ℕ)) (chained : Bool) :
    Effect σ.entry_size → Table σ → Prop
  | skip : OpLeaf env t site chained .none t
  | update {i entry_id : ℕ} {data old : σ.Data}
      (hrd : dbTableGetEntry t.toCore entry_id = some old ∨
        dbTableGetEntry t.toCore entry_id = none)
      (hcmp : ∀ x ix, dbTableGetEntry t.toCore entry_id = some x → σ.index_list[i]? = some ix →
        ix = .array ∨ ix.cmp data x = true) :
    OpLeaf env t site chained (rewriteEffect t.toCore entry_id data)
      (updateVia env t i entry_id data old)
  | insert {i entry_id : ℕ} {data : σ.Data} {c₁ : Core σ} {t' : Table σ}
      (hfr : entry_id ∈ t.entry_alloc_list) (hlk : Linked t.toCore entry_id site (some i) c₁)
      (h : insertVia env { t with toCore := c₁.take entry_id } i entry_id data (!chained) =
        .ok t') :
    OpLeaf env t site chained (.insert entry_id data) t'
  | unlink {i b entry_id : ℕ} {l : List ℕ} {old : σ.Data}
      (hl : AddedTo entry_id l (t.chains i b)) :
    OpLeaf env t site chained (deleteEffect t.toCore entry_id)
      (deleteVia env { t with toCore := t.toCore.setChain i b l } i entry_id old).1
  | remove {i entry_id : ℕ} {old : σ.Data} (hunl : Unlinked t.toCore entry_id (some i) t.toCore)
      (hget : dbTableGetEntry t.toCore entry_id = some old) :
    OpLeaf env t site chained (.delete entry_id)
      (dbTableDeleteEntry env (callHandler (dbTableFreeEntryIndex env t entry_id (some i))
        σ.handle_delete (.handleDelete old) 0).1 entry_id true)

def LocalOp.chained {n : ℕ} : LocalOp n → Bool
  | hashInsert _ _ | hashInsertSeq _ _ _ | hashDelete _ _ | hashUpdate _ _ | sequenceInsert _ _ _
  | sequenceDelete _ _ _ _ | sequenceUpdate _ _ _ => true
  | arrayInsert _ _ | arrayInsertByid _ _ _ | arrayInsertAfter _ _ _ | arrayDelete _ _
  | arrayUpdate _ _ _ => false

section

variable {env : Env} {t t' : Table σ} {i b : ℕ} {data : σ.Data} {r : ℤ} {site : Option (ℕ × ℕ)}

theorem fst_of_ok {p : Table σ × ℤ} (h : (ok p : Except Fault _) = .ok (t', r)) : p.1 = t' :=
  congrArg Prod.fst (ok.inj h)

theorem of_bind_return {x : Except Fault (Table σ)}
    (h : (do let t ← x; return (t, (0 : ℤ))) = ok (t', r)) : x = .ok t' ∧ r = 0 := by
  obtain ⟨t₁, hx, ht₁⟩ := bind_eq_ok.mp h
  obtain ⟨rfl, rfl⟩ : t₁ = t' ∧ 0 = r := by simpa [pure, Except.pure] using ht₁
  exact ⟨hx, rfl⟩

theorem chainInsert_leaf {found : Option (ℕ × σ.Data)} {chain : ℕ → List ℕ}
    (hrd : ∀ entry_id cmpdata, found = some (entry_id, cmpdata) →
      dbTableGetEntry t.toCore entry_id = some cmpdata ∨ dbTableGetEntry t.toCore entry_id = none)
    (hcmp : ∀ entry_id cmpdata ix, found = some (entry_id, cmpdata) →
      σ.index_list[i]? = some ix → ix.cmp data cmpdata = true)
    (hch : ∀ entry_id, AddedTo entry_id (t.chains i b) (chain entry_id))
    (h : chainInsert env t i b data found chain = .ok (t', r)) :
    OpLeaf env t (some (i, b)) true (chainInsertEffect t data found) t' := by
  unfold chainInsert at h
  unfold chainInsertEffect
  cases hf : found with
  | some p =>
    -- A node compares equal: its entry is rewritten.
    obtain ⟨entry_id, cmpdata⟩ := p
    rw [hf] at h
    obtain rfl := fst_of_ok h
    refine .update (hrd entry_id cmpdata hf) fun x ix hx hix => Or.inr ?_
    rcases hrd entry_id cmpdata hf with hrd | hrd
    · obtain rfl : x = cmpdata := mem_unique hx hrd
      exact hcmp entry_id x ix hf hix
    · rw [hrd] at hx
      simp at hx
  | none =>
    rw [hf] at h
    cases halc : osalTableEntryIdAlloc t.toCore with
    | none =>
      rw [halc] at h
      obtain rfl := fst_of_ok h
      exact .skip
    | some p =>
      -- No node compares equal: a new entry gets a node.
      obtain ⟨entry_id, c⟩ := p
      obtain ⟨hfr, rfl⟩ := entryIdAlloc_eq_some halc
      rw [halc] at h
      exact .insert hfr (.on (hch entry_id)) (of_bind_return h).1

theorem hashInsertSeq_leaf {list_prev : Option (σ.Data → σ.Data → Bool)}
    (h : dbtableHashInsertSeq env t i data list_prev = .ok (t', r)) :
    OpLeaf env t ((σ.hashIndex i).bind fun h => (h.bucket data).map fun b => (i, b)) true
      (hashInsertEffect env t i data list_prev) t' := by
  unfold dbtableHashInsertSeq at h
  unfold hashInsertEffect
  cases hix : σ.hashIndex i with rw [hix] at h
  | none =>
    obtain rfl := fst_of_ok h
    exact .skip
  | some hash =>
    rw [bind_some]
    dsimp only at h ⊢
    cases hb : hash.bucket data with rw [hb] at h
    | none =>
      obtain rfl := fst_of_ok h
      exact .skip
    | some b =>
      refine chainInsert_leaf (fun entry_id cmpdata hf => ?_)
        (fun entry_id cmpdata ix hf hix' => ?_) (link_addedTo) h
      · exact (mem_of_scan (filter_eq_some_iff.mp hf).1).2.2
      · obtain rfl : .hash hash = ix := some.inj
          ((hashIndex_eq_some.mp hix).symm.trans hix')
        exact (filter_eq_some_iff.mp hf).2

theorem sequenceInsert_leaf {sequence_index : ℕ}
    (h : dbtableSequenceInsert env t i sequence_index data = .ok (t', r)) :
    OpLeaf env t ((σ.sequenceIndex i).bind fun s => (s.bucketAt sequence_index).map fun b => (i, b))
      true (sequenceInsertEffect env t i data sequence_index) t' := by
  unfold dbtableSequenceInsert at h
  unfold sequenceInsertEffect
  cases hix : σ.sequenceIndex i with rw [hix] at h
  | none =>
    obtain rfl := fst_of_ok h
    exact .skip
  | some s =>
    rw [bind_some]
    dsimp only at h ⊢
    cases hb : s.bucketAt sequence_index with rw [hb] at h
    | none =>
      obtain rfl := fst_of_ok h
      exact .skip
    | some b =>
      refine chainInsert_leaf (fun entry_id cmpdata hf => (mem_of_scan hf).2.2)
        (fun entry_id cmpdata ix hf hix' => ?_) (fun entry_id => addedTo_concat entry_id _) h
      obtain rfl : .sequence s = ix := some.inj ((sequenceIndex_eq_some.mp hix).symm.trans hix')
      exact (mem_of_scan hf).2.1

theorem chainDelete_leaf {equal : σ.Data → Bool} {buf : σ.Data} :
    OpLeaf env t site true (chainDeleteEffect t i b equal buf)
      (chainDelete env t i b equal buf).1 := by
  unfold chainDelete chainDeleteEffect
  cases hsc : scan (dbTableGetEntry t.toCore) equal buf (t.chains i b) with
  | none => exact .skip
  | some p => exact .unlink (unlink_addedTo hsc)

theorem hashDelete_leaf :
    OpLeaf env t site true (hashDeleteEffect env t i data) (dbtableHashDelete env t i data).1 := by
  unfold dbtableHashDelete hashDeleteEffect
  cases hix : σ.hashIndex i with
  | none => exact .skip
  | some hash =>
    dsimp only
    cases hb : hash.bucket data with
    | none => split_ifs <;> exact .skip
    | some b =>
      -- There is a bucket only where there is a bucket function.
      have hke : hash.hash_key.isNone = false := by
        unfold HashIndex.bucket at hb
        cases hk : hash.hash_key with
        | none => simp [hk] at hb
        | some key => rfl
      rw [hke, if_neg Bool.false_ne_true]
      exact chainDelete_leaf

theorem sequenceDelete_leaf {sequence_index : ℕ} {ret_data : Option σ.Data} :
    OpLeaf env t site true (sequenceDeleteEffect t i data sequence_index ret_data)
      (dbtableSequenceDelete env t i sequence_index data ret_data).1 := by
  unfold dbtableSequenceDelete sequenceDeleteEffect
  cases hix : σ.sequenceIndex i with
  | none => exact .skip
  | some s =>
    dsimp only
    cases hb : s.bucketAt sequence_index with
    | none => exact .skip
    | some b => exact chainDelete_leaf

theorem off_of_isArray (harr : σ.isArray i = true) (j : ℕ) (hj : some i = some j) :
    σ.index_list[j]? = some .array := by
  rw [← some.inj hj]
  exact isArray_iff.mp harr

theorem arrayInsert_leaf {alloc : Option (ℕ × Core σ)}
    (halc : ∀ entry_id c, alloc = some (entry_id, c) →
      entry_id ∈ t.entry_alloc_list ∧ c = t.toCore.take entry_id)
    (h : (if σ.isArray i then arrayInsert env t i data alloc else .ok (t, -1)) = .ok (t', r)) :
    OpLeaf env t none false (if σ.isArray i then insertEffect alloc data else .none) t' := by
  split_ifs at h ⊢ with harr
  · cases ha : alloc with rw [ha] at h
    | none =>
      obtain rfl := fst_of_ok h
      exact .skip
    | some p =>
      obtain ⟨entry_id, c⟩ := p
      obtain ⟨hfr, rfl⟩ := halc entry_id c ha
      exact .insert hfr (.off (off_of_isArray harr)) (of_bind_return h).1
  · obtain rfl := fst_of_ok h
    exact .skip

theorem LocalOp.run_leaf (op : LocalOp σ.entry_size) (h : op.run env t = .ok (t', r)) :
    OpLeaf env t (op.site σ) op.chained (op.effect env t) t' := by
  cases op with
  | hashInsert i data | hashInsertSeq i data list_prev => exact hashInsertSeq_leaf h
  | hashDelete i data =>
    obtain rfl := fst_of_ok h
    exact hashDelete_leaf
  | hashUpdate i data =>
    rw [run, dbtableHashUpdate] at h
    rw [effect]
    cases hs : dbtableHashSearch env t i data none with rw [hs] at h
    | error e =>
      obtain rfl := fst_of_ok h
      exact .skip
    | ok x => exact hashInsertSeq_leaf h
  | sequenceInsert i sequence_index data => exact sequenceInsert_leaf h
  | sequenceDelete i sequence_index data ret_data =>
    obtain rfl := fst_of_ok h
    exact sequenceDelete_leaf
  | sequenceUpdate i sequence_index data =>
    rw [run, dbtableSequenceUpdate] at h
    rw [effect]
    cases hs : dbtableSequenceSearch t i sequence_index data with rw [hs] at h
    | none =>
      obtain rfl := fst_of_ok h
      exact .skip
    | some x => exact sequenceInsert_leaf h
  | arrayInsert i data => exact arrayInsert_leaf (fun _ _ => entryIdAlloc_eq_some) h
  | arrayInsertByid i array_index data =>
    refine arrayInsert_leaf (fun entry_id c halc => ?_) h
    obtain ⟨c', hc', heq⟩ := map_eq_some_iff.mp halc
    obtain ⟨rfl, rfl⟩ : array_index = entry_id ∧ c' = c := by simpa using heq
    exact internalAlloc_eq_some hc'
  | arrayInsertAfter i data start_id =>
    exact arrayInsert_leaf (fun _ _ => internalAllocAfter_eq_some) h
  | arrayDelete i array_index =>
    obtain rfl := fst_of_ok h
    rw [effect, dbtableArrayDelete]
    split_ifs with harr
    · unfold deleteEffect
      cases hget : dbTableGetEntry t.toCore array_index with
      | none => exact .skip
      | some old => exact .remove (.off (off_of_isArray harr)) hget
    · exact .skip
  | arrayUpdate i array_index data =>
    obtain rfl := fst_of_ok h
    rw [effect, dbtableArrayUpdate]
    split_ifs with harr
    · cases hget : dbTableGetEntry t.toCore array_index with
      | none =>
        rw [rewriteEffect, hget]
        exact .skip
      | some old =>
        refine .update (.inl hget) fun x ix _ hix => Or.inl ?_
        exact some.inj (hix.symm.trans (isArray_iff.mp harr))
    · exact .skip

theorem OpLeaf.hasEffect {chained : Bool} {eff : Effect σ.entry_size}
    (h : OpLeaf env t site chained eff t') (ho : Occupancy t.toCore) :
    HasEffect env true t site eff t' := by
  cases h with
  | skip => exact .skip
  | update hrd hcmp => exact updateVia_hasEffect ho hcmp
  | insert hfr hlk h => exact insertVia_hasEffect ho hfr hlk h
  | unlink hl => exact deleteVia_hasEffect ho hl
  | remove hunl hget =>
    exact deleteEntry_hasEffect ho hunl hget (callHandler_toCore _ _ _ _) (callHandler_sent _ _ _ _)

end

theorem LocalOp.run_hasEffect {env : Env} {t t' : Table σ} {r : ℤ} (op : LocalOp σ.entry_size)
    (ho : Occupancy t.toCore) (h : op.run env t = .ok (t', r)) :
    HasEffect env true t (op.site σ) (op.effect env t) t' :=
  (op.run_leaf h).hasEffect ho

/-! ## When a call returns -/

section

variable {env : Env} (t : Table σ) (i : ℕ) (data : σ.Data)

section

variable (h : σ.Fits ∨ env.sends σ true = false)
include h

theorem chainInsert_ok (b : ℕ) (found : Option (ℕ × σ.Data)) (chain : ℕ → List ℕ) :
    ∃ p, chainInsert env t i b data found chain = .ok p := by
  unfold chainInsert
  cases found with
  | some p => exact ⟨_, rfl⟩
  | none =>
    cases osalTableEntryIdAlloc t.toCore with
    | none => exact ⟨_, rfl⟩
    | some p =>
      obtain ⟨t', ht'⟩ := insertVia_ok { t with toCore := p.2.setChain i b (chain p.1) } i p.1 data
        false h
      exact ⟨(t', 0), by dsimp only; rw [ht']; rfl⟩

theorem hashInsertSeq_ok (list_prev : Option (σ.Data → σ.Data → Bool)) :
    ∃ p, dbtableHashInsertSeq env t i data list_prev = .ok p := by
  unfold dbtableHashInsertSeq
  cases σ.hashIndex i with
  | none => exact ⟨_, rfl⟩
  | some hash =>
    dsimp only
    cases hash.bucket data with
    | none => exact ⟨_, rfl⟩
    | some b => exact chainInsert_ok t i data h b _ _

theorem sequenceInsert_ok (sequence_index : ℕ) :
    ∃ p, dbtableSequenceInsert env t i sequence_index data = .ok p := by
  unfold dbtableSequenceInsert
  cases σ.sequenceIndex i with
  | none => exact ⟨_, rfl⟩
  | some s =>
    dsimp only
    cases s.bucketAt sequence_index with
    | none => exact ⟨_, rfl⟩
    | some b => exact chainInsert_ok t i data h b _ _

theorem arrayInsert_ok (alloc : Option (ℕ × Core σ)) :
    ∃ p, (if σ.isArray i then arrayInsert env t i data alloc else .ok (t, -1)) = .ok p := by
  split_ifs
  · unfold arrayInsert
    cases alloc with
    | none => exact ⟨_, rfl⟩
    | some p =>
      obtain ⟨t', ht'⟩ := insertVia_ok { t with toCore := p.2 } i p.1 data true h
      exact ⟨(t', 0), by dsimp only; rw [ht']; rfl⟩
  · exact ⟨_, rfl⟩

end

theorem LocalOp.run_ok (op : LocalOp σ.entry_size) (h : σ.Fits ∨ env.sends σ true = false) :
    ∃ p, op.run env t = .ok p := by
  cases op with
  | hashInsert i data => exact hashInsertSeq_ok t i data h none
  | hashInsertSeq i data list_prev => exact hashInsertSeq_ok t i data h list_prev
  | hashDelete i data | sequenceDelete i sequence_index data ret_data | arrayDelete i array_index =>
    exact ⟨_, rfl⟩
  | hashUpdate i data =>
    rw [run, dbtableHashUpdate]
    cases dbtableHashSearch env t i data none with
    | error e => exact ⟨_, rfl⟩
    | ok x => exact hashInsertSeq_ok t i data h none
  | sequenceInsert i sequence_index data => exact sequenceInsert_ok t i data h sequence_index
  | sequenceUpdate i sequence_index data =>
    rw [run, dbtableSequenceUpdate]
    cases dbtableSequenceSearch t i sequence_index data with
    | none => exact ⟨_, rfl⟩
    | some x => exact sequenceInsert_ok t i data h sequence_index
  | arrayInsert i data | arrayInsertByid i array_index data | arrayInsertAfter i data start_id =>
    exact arrayInsert_ok t i data h _
  | arrayUpdate i array_index data => exact ⟨_, rfl⟩

end

end Chanos.Database

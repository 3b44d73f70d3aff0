import Chanos.Database.Replication

/-!
# Resynchronisation of a table

When a slot comes online, `dbtable_sync_data_all` collects runs of entries that exist, and sends
each run in pieces that fit a message. The pieces cover exactly the ids of the master
(`syncRuns_spec`); what the replica has besides these stays with it (`resync_replica`,
`resync_keeps_leftover`).
-/

namespace Chanos.Database

open Lib List Option Nat Bytes Bool

variable {σ σ' : Schema}

def syncRuns (env : Env) (slot_index : ℤ) :
    ℕ → ℕ → Table σ → Option ℕ → ℕ → Except Fault (Table σ)
  | 0, _, t, _, _ => .ok t
  | k + 1, i, t, start_id, num =>
    if (t.entries i).exist then
      let start := start_id.getD i
      if start + (num + 1) = σ.entry_num then
        dbtableSyncDataInsert env t start (num + 1) slot_index
      else syncRuns env slot_index k (i + 1) t (some start) (num + 1)
    else
      match start_id with
      | none => syncRuns env slot_index k (i + 1) t none num
      | some start => do
        let t ← dbtableSyncDataInsert env t start num slot_index
        syncRuns env slot_index k (i + 1) t none 0

def dbtableSyncDataAll (env : Env) (t : Table σ) (slot_index : ℤ) : Except Fault (Table σ) :=
  if σ.sync_mode &&& DB_SYNC_NONE ≠ 0 then .ok t
  else syncRuns env slot_index σ.entry_num 0 t none 0

/-! ## Blocks of ids -/

def covers (blocks : List (ℕ × ℕ)) (id : ℕ) : Bool :=
  blocks.any fun b => b.1 ≤ id && id < b.1 + b.2

theorem covers_cons (b : ℕ × ℕ) (blocks : List (ℕ × ℕ)) (id : ℕ) :
    covers (b :: blocks) id = true ↔ (b.1 ≤ id ∧ id < b.1 + b.2) ∨ covers blocks id = true := by
  unfold covers
  rw [any_cons, or_eq_true, and_eq_true, decide_eq_true_eq, decide_eq_true_eq]

theorem covers_append (l l' : List (ℕ × ℕ)) (id : ℕ) :
    covers (l ++ l') id = true ↔ covers l id = true ∨ covers l' id = true := by
  unfold covers
  rw [any_append, or_eq_true]

section

variable {k start_id num : ℕ}

theorem le_of_mem_pieces (hk : 0 < k) {b : ℕ × ℕ} (hb : b ∈ pieces k start_id num) :
    b.2 ≤ k ∧ b.1 + b.2 ≤ start_id + num := by
  have hn := div_add_mod' num k
  rcases mem_append.mp hb with hb | hb
  · obtain ⟨i, hi, rfl⟩ := mem_map.mp hb
    have hmu : (i + 1) * k ≤ num / k * k := mul_le_mul_right k (mem_range.mp hi)
    have hsu := Nat.add_one_mul i k
    exact ⟨le_rfl, by dsimp only; omega⟩
  · obtain rfl := mem_singleton.mp hb
    exact ⟨(mod_lt num hk).le, by dsimp only; omega⟩

theorem covers_pieces (hk : 0 < k) (id : ℕ) :
    covers (pieces k start_id num) id = true ↔ start_id ≤ id ∧ id < start_id + num := by
  have hn := div_add_mod' num k
  constructor
  · intro h
    obtain ⟨b, hb, hid⟩ := any_eq_true.mp h
    rw [and_eq_true, decide_eq_true_eq, decide_eq_true_eq] at hid
    have hle := (le_of_mem_pieces hk hb).2
    have hge : start_id ≤ b.1 := by
      rcases mem_append.mp hb with hb | hb
      · obtain ⟨i, -, rfl⟩ := mem_map.mp hb
        exact le_add_right _ _
      · obtain rfl := mem_singleton.mp hb
        exact le_add_right _ _
    omega
  · rintro ⟨hge, hlt⟩
    -- The piece is the one whose number is the quotient of the distance from the start.
    have hd := div_add_mod' (id - start_id) k
    have hmo : (id - start_id) % k < k := mod_lt _ hk
    have hq : (id - start_id) / k ≤ num / k := Nat.div_le_div_right (by omega)
    refine any_eq_true.mpr ?_
    rcases hq.lt_or_eq with hf | hla
    · refine ⟨(start_id + (id - start_id) / k * k, k), ?_, ?_⟩
      · exact mem_append_left _ (mem_map.mpr ⟨_, mem_range.mpr hf, rfl⟩)
      · rw [and_eq_true, decide_eq_true_eq, decide_eq_true_eq]
        omega
    · refine ⟨(start_id + num / k * k, num % k),
        mem_append_right _ (mem_singleton.mpr rfl), ?_⟩
      rw [and_eq_true, decide_eq_true_eq, decide_eq_true_eq]
      rw [hla] at hd
      omega

end

/-! ## What is sent -/

section

variable (env : Env) (slot_index : ℤ)

def RunBefore (c : Core σ) (i num : ℕ) : Option ℕ → Prop
  | none => num = 0
  | some start => start + num = i ∧ i < σ.entry_num ∧
      ∀ id, start ≤ id → id < i → (c.entries id).exist = true

theorem RunBefore.collected {c : Core σ} {i num : ℕ} {start_id : Option ℕ}
    (h : RunBefore c i num start_id) :
    start_id.getD i + num = i ∧
      ∀ id, start_id.getD i ≤ id → id < i → (c.entries id).exist = true := by
  cases start_id with
  | none =>
    obtain rfl : num = 0 := h
    exact ⟨rfl, fun id hge hlt => absurd hge (not_le.mpr hlt)⟩
  | some start => exact ⟨h.1, h.2.2⟩

theorem syncDataInsert_blocks (hf : σ.Fits) (t : Table σ) (start_id num : ℕ) :
    ∃ t' blocks, dbtableSyncDataInsert env t start_id num slot_index = .ok t' ∧
      t'.toCore = t.toCore ∧
      t'.sent = t.sent ++ env.calls σ slot_index
        (blocks.map fun b => syncMsg t.toCore .itemAdd b.1 b.2) ∧
      (∀ b ∈ blocks, b.2 ≤ σ.sendNum ∧ b.1 + b.2 ≤ start_id + num) ∧
      ∀ id, covers blocks id = true ↔ start_id ≤ id ∧ id < start_id + num := by
  have hp := hf.sendNum_pos
  obtain ⟨hco, -, hse⟩ :=
    foldl_insertPiece_spec env t slot_index (pieces σ.sendNum start_id num)
  exact ⟨_, pieces σ.sendNum start_id num, syncDataInsert_eq _ _ _ _ _ hf, hco, hse,
    fun b hb => le_of_mem_pieces hp hb, covers_pieces hp⟩

theorem syncRuns_spec (hf : σ.Fits) (k i : ℕ) (t : Table σ) (start_id : Option ℕ) (num : ℕ)
    (hk : i + k = σ.entry_num) (hrun : RunBefore t.toCore i num start_id) :
    ∃ t' blocks, syncRuns env slot_index k i t start_id num = .ok t' ∧ t'.toCore = t.toCore ∧
      t'.sent = t.sent ++ env.calls σ slot_index
        (blocks.map fun b => syncMsg t.toCore .itemAdd b.1 b.2) ∧
      (∀ b ∈ blocks, b.2 ≤ σ.sendNum ∧ b.1 + b.2 ≤ σ.entry_num) ∧
      ∀ id, covers blocks id = true ↔
        start_id.getD i ≤ id ∧ id < σ.entry_num ∧ (t.entries id).exist = true := by
  induction k generalizing i t start_id num with
  | zero =>
    -- A run that reaches the last id does not get here.
    obtain rfl : start_id = none := by
      cases start_id with
      | none => rfl
      | some start => exact absurd hrun.2.1 (by omega)
    refine ⟨t, [], rfl, rfl, ?_, by simp, fun id => ?_⟩
    · simp [Env.calls]
    · simp only [covers, any_nil, false_eq_true, getD_none, false_iff]
      omega
  | succ k ih =>
    obtain ⟨hst, he⟩ := hrun.collected
    unfold syncRuns
    split_ifs with hi
    · have he' : ∀ id, start_id.getD i ≤ id → id < i + 1 → (t.entries id).exist = true := by
        intro id hge hlt
        rcases Nat.lt_succ_iff_lt_or_eq.mp hlt with hlt | rfl
        · exact he id hge hlt
        · exact hi
      by_cases hla : start_id.getD i + (num + 1) = σ.entry_num
      · -- The run reaches the last id, and is sent as it is.
        rw [if_pos hla]
        obtain ⟨t', blocks, hca, hco, hse, hle, hc⟩ :=
          syncDataInsert_blocks env slot_index hf t (start_id.getD i) (num + 1)
        refine ⟨t', blocks, hca, hco, hse, hla ▸ hle, fun id => ?_⟩
        rw [hc, hla]
        refine ⟨fun h => ⟨h.1, h.2, he' id h.1 (by omega)⟩, fun h => ⟨h.1, h.2.1⟩⟩
      · rw [if_neg hla]
        exact ih (i + 1) t (some (start_id.getD i)) (num + 1) (by omega) ⟨by omega, by omega, he'⟩
    · cases start_id with
      | none =>
        obtain ⟨t', blocks, hca, hco, hse, hle, hc⟩ := ih (i + 1) t none num (by omega) hrun
        refine ⟨t', blocks, hca, hco, hse, hle, fun id => (hc id).trans ?_⟩
        have hne : (t.entries id).exist = true → id ≠ i := fun h hid => hi (hid ▸ h)
        simp only [getD_none]
        refine ⟨fun h => ⟨by omega, h.2⟩, fun h => ⟨?_, h.2⟩⟩
        have := hne h.2.2
        omega
      | some start =>
        -- The run ends before `i`, and the walk goes on without one.
        obtain ⟨t₁, blocks₁, hcall₁, hcore₁, hsent₁, hle₁, hcov₁⟩ :=
          syncDataInsert_blocks env slot_index hf t start num
        have hn : RunBefore t₁.toCore (i + 1) 0 none := rfl
        obtain ⟨t₂, blocks₂, hcall₂, hcore₂, hsent₂, hle₂, hcov₂⟩ :=
          ih (i + 1) t₁ none 0 (by omega) hn
        rw [getD_some] at hst he
        refine ⟨t₂, blocks₁ ++ blocks₂, ?_, hcore₂.trans hcore₁, ?_, ?_, fun id => ?_⟩
        · dsimp only
          rw [hcall₁]
          exact hcall₂
        · rw [hsent₂, hsent₁, hcore₁, append_assoc, ← Env.calls_append, map_append]
        · intro b hb
          rcases mem_append.mp hb with hb | hb
          · obtain ⟨hsn, hle⟩ := hle₁ b hb
            exact ⟨hsn, by omega⟩
          · exact hle₂ b hb
        · rw [covers_append, hcov₁, hcov₂, hcore₁, getD_none, getD_some]
          constructor
          · rintro (⟨hge, hlt⟩ | ⟨hge, hlt, hex⟩)
            · exact ⟨hge, by omega, he id hge (by omega)⟩
            · exact ⟨by omega, hlt, hex⟩
          · rintro ⟨hge, hlt, hex⟩
            have hne : id ≠ i := fun hid => hi (hid ▸ hex)
            rcases lt_or_ge id i with hid | hid
            · exact .inl ⟨hge, by omega⟩
            · exact .inr ⟨by omega, hlt, hex⟩

end

/-! ## What is received -/

theorem syncMsg_eq_blockMsg {c : Core σ} (op : SyncOp) {start_id num : ℕ}
    (h : ∀ i < num, (dbTableGetEntry c (start_id + i)).isSome = true) :
    ∃ ds : List σ.Data, ds.length = num ∧
      syncMsg c op start_id num = σ.blockMsg op start_id ds ∧
      ∀ i < num, (ds.map (head σ.sync_size))[i]? = synced c (start_id + i) := by
  let data (i : ℕ) : σ.Data := (dbTableGetEntry c (start_id + i)).getD (zero _)
  have hdt : ∀ i < num, dbTableGetEntry c (start_id + i) = some (data i) := by
    intro i hi
    obtain ⟨d, hd⟩ := isSome_iff_exists.mp (h i hi)
    rw [hd]
    exact congrArg some (by simp only [data, hd, getD_some])
  have hent : ∀ i ∈ range num,
      (syncEntry c (start_id + i)).toList = (σ.wireData (data i)).toList := by
    intro i hi
    rw [syncEntry, dbTableSyncGetEntry, hdt i (mem_range.mp hi)]
    rfl
  refine ⟨(range num).map data, by simp, ?_, fun i hi => ?_⟩
  · rw [syncMsg, Schema.blockMsg, length_map, length_range, flatMap_map]
    congr 1
    exact flatMap_congr hent
  · rw [synced, hdt i hi]
    simp [hi]

theorem received_blocks (hsm : SameWire σ σ') (hf : σ.Fits) (host : Host) {c : Core σ} {k : ℕ}
    (blocks : List (ℕ × ℕ)) (hle : ∀ b ∈ blocks, b.2 ≤ σ.sendNum ∧ b.1 + b.2 ≤ σ.entry_num)
    (he : ∀ id, covers blocks id = true → (dbTableGetEntry c id).isSome = true) {reg : Registry}
    {t : Table σ'} (hr : reg.Holds k t) (ho : Occupancy t.toCore)
    {bufs : List (Env × List UInt8)}
    (hbu : bufs.map Prod.snd = blocks.map fun b => (syncMsg c .itemAdd b.1 b.2).wire) :
    Receives host reg k σ' bufs fun id =>
      if covers blocks id then synced c id else synced t.toCore id := by
  induction blocks generalizing reg t bufs with
  | nil =>
    obtain rfl := map_eq_nil_iff.mp hbu
    exact receives_nil hr ho rfl
  | cons b blocks ih =>
    obtain ⟨⟨env, buf⟩, rest, rfl, rfl, hrs⟩ := map_eq_cons_iff.mp hbu
    obtain ⟨hse, hn⟩ := hle b mem_cons_self
    have hbl : ∀ i < b.2, (dbTableGetEntry c (b.1 + i)).isSome = true := fun i hi =>
      he _ ((covers_cons _ _ _).mpr (.inl ⟨by omega, by omega⟩))
    obtain ⟨ds, hlen, hms, hbs⟩ := syncMsg_eq_blockMsg .itemAdd hbl
    obtain ⟨fuel, code, t₁, hca, hocc₁, hsync₁⟩ :=
      recv_block (hlen ▸ hn) (blockLen_lt (hlen ▸ hse)) hsm (hsm.fits hf) host env hr ho
        (hlen.symm ▸ hbs)
    rw [← hms] at hca
    refine receives_append ⟨t₁, .cons hca .nil, hocc₁, funext hsync₁⟩ hr
      fun reg' t' hr' ho' hsy => ?_
    have hih := ih (fun b hb => hle b (mem_cons_of_mem _ hb))
      (fun id hid => he id ((covers_cons _ _ _).mpr (.inr hid))) hr' ho' hrs
    convert hih using 2 with id
    rw [hsy, hlen]
    have hc := covers_cons b blocks id
    by_cases hla : covers blocks id = true
    · rw [if_pos hla, if_pos (hc.mpr (.inr hla))]
    · rw [if_neg hla]
      refine if_congr ?_ rfl rfl
      rw [hc]
      exact ⟨fun h => h.resolve_right hla, .inl⟩

/-! ## The outcome -/

/-- A table is resynchronised. The call returns; and when the messages it has sent are received in
order for a copy in any state, the copy has the ids of the table with its synchronised bytes, and
for every other id it has what it had before. -/
theorem resync_replica {σ σ' : Schema} (hsame : SameWire σ σ') (hfits : σ.Fits)
    (hmode : σ.sync_mode &&& DB_SYNC_NONE = 0) (env : Env)
    (hhook : env.platform_db_sync.isSome = true) (slot_index : ℤ) (t : Table σ)
    (hc : Occupancy t.toCore) (host : Host) (reg : Registry) (k : ℕ) (t₀ : Table σ')
    (hreg : reg.Holds k t₀) (hocc : Occupancy t₀.toCore) :
    ∃ t₁ msgs, dbtableSyncDataAll env t slot_index = .ok t₁ ∧ t₁.toCore = t.toCore ∧
      t₁.sent = t.sent ++ msgs ∧
      ∀ bufs : List (Env × List UInt8), bufs.map Prod.snd = msgs.map (fun c => c.msg.wire) →
        ∃ reg' t', Received host reg bufs (.ok reg') ∧ reg'.tables[k]? = some ⟨σ', t'⟩ ∧
          ∀ id, if (t.entries id).exist then
              (t'.entries id).exist = true ∧
                (t'.entries id).real_data.map (head σ'.sync_size) =
                  (t.entries id).real_data.map (head σ.sync_size)
            else
              (t'.entries id).exist = (t₀.entries id).exist ∧
                (t'.entries id).real_data.map (head σ'.sync_size) =
                  (t₀.entries id).real_data.map (head σ'.sync_size) := by
  have hnone : RunBefore t.toCore 0 0 none := rfl
  obtain ⟨t₁, blocks, hcall, hcore, hsent, hle, hcov⟩ :=
    syncRuns_spec env slot_index hfits σ.entry_num 0 t none 0 (zero_add _) hnone
  -- The blocks have the ids that exist.
  have hexist : ∀ id, covers blocks id = true ↔ (t.entries id).exist = true := by
    intro id
    rw [hcov]
    exact ⟨fun h => h.2.2, fun h => ⟨zero_le _, hc.exist_lt id h, h⟩⟩
  refine ⟨t₁, _, ?_, hcore, hsent, fun bufs hbufs => ?_⟩
  · rw [dbtableSyncDataAll, if_neg (not_not_intro hmode)]
    exact hcall
  rw [Env.calls, if_pos hhook, List.map_map, List.map_map] at hbufs
  obtain ⟨t', hrecv, hocc', hsync⟩ := received_blocks hsame hfits host blocks hle
    (fun id hid => by rw [hc.isSome_get]; exact (hexist id).mp hid) hreg hocc hbufs
  refine ⟨_, t', hrecv, (hreg.set t').table, fun id => ?_⟩
  have hid := congrFun hsync id
  split_ifs with hex
  · rw [if_pos ((hexist id).mpr hex)] at hid
    exact hex ▸ agree_of_synced hc hocc' hid
  · rw [if_neg fun h => hex ((hexist id).mp h)] at hid
    exact agree_of_synced hocc hocc' hid

/-- The messages about a table with one entry bring it to a fresh copy. -/
theorem resync_replica_fresh :
    ∃ t : Table syncedKeys,
      runCalls (createDbtable syncedKeys) [(syncEnv, .hashInsert 0 (twoBytes 1 7))] = .ok t ∧
      ∃ t₁ msgs, dbtableSyncDataAll syncEnv t 1 = .ok t₁ ∧ t₁.toCore = t.toCore ∧
        t₁.sent = t.sent ++ msgs ∧
        ∀ bufs : List (Env × List UInt8), bufs.map Prod.snd = msgs.map (fun c => c.msg.wire) →
          ∃ reg' t', Received ⟨.little, .bits32, false⟩
              ⟨[⟨syncedKeys, createDbtable syncedKeys⟩], 0⟩ bufs (.ok reg') ∧
            reg'.tables[0]? = some ⟨syncedKeys, t'⟩ ∧
            ∀ id, if (t.entries id).exist then
                (t'.entries id).exist = true ∧
                  (t'.entries id).real_data.map (head syncedKeys.sync_size) =
                    (t.entries id).real_data.map (head syncedKeys.sync_size)
              else
                (t'.entries id).exist = ((createDbtable syncedKeys).entries id).exist ∧
                  (t'.entries id).real_data.map (head syncedKeys.sync_size) =
                    ((createDbtable syncedKeys).entries id).real_data.map
                      (head syncedKeys.sync_size) := by
  have hfits : syncedKeys.Fits := ⟨by decide, by decide⟩
  have hcreate : Occupancy (createDbtable syncedKeys).toCore := occupancy_create syncedKeys
  obtain ⟨⟨t, r⟩, hrun⟩ := LocalOp.run_ok (createDbtable syncedKeys)
    (.hashInsert 0 (twoBytes 1 7))
    (.inl hfits : syncedKeys.Fits ∨ syncEnv.sends syncedKeys true = false)
  refine ⟨t, ?_, ?_⟩
  · rw [runCalls, hrun]
    rfl
  · exact resync_replica syncedKeys_sameWire hfits (by decide) syncEnv rfl 1 t
      ((LocalOp.run_hasEffect _ hcreate hrun).core.occupancy hcreate) _ _ 0 _ ⟨rfl, rfl⟩ hcreate

/-- The master inserts an entry, and a replica gets it and goes offline. The master deletes the
entry, and then resynchronises the replica. It has nothing to send, and the replica keeps the
entry. -/
theorem resync_keeps_leftover :
    ∃ t t₀ t₁ : Table syncedKeys,
      runCalls (createDbtable syncedKeys) [(syncEnv, .hashInsert 0 (twoBytes 1 7)),
        (syncEnv, .hashDelete 0 (twoBytes 1 7))] = .ok t ∧
      runCalls (createDbtable syncedKeys) [(quietEnv, .hashInsert 0 (twoBytes 1 7))] = .ok t₀ ∧
      dbtableSyncDataAll syncEnv t 1 = .ok t₁ ∧ t₁.sent = t.sent ∧
      (t.entries 0).exist = false ∧ (t₀.entries 0).exist = true :=
  ⟨_, _, _, rfl, rfl, rfl, rfl, rfl, rfl⟩

/-! ## Joining -/

/-- A table is resynchronised for a node, and calls change it after that. The messages of both bring
an empty copy at the node to the entries of the table. -/
def JoinFollows {σ : Schema} (env : Env) (slot_index : ℤ) (t : Table σ)
    (calls : List (Env × LocalOp σ.entry_size)) (host : Host) (reg : Registry) (k : ℕ)
    (σ' : Schema) : Prop :=
  ∃ t₁ t₂ msgs, dbtableSyncDataAll env t slot_index = .ok t₁ ∧ runCalls t₁ calls = .ok t₂ ∧
    t₂.sent = t.sent ++ msgs ∧
    ∀ bufs : List (Env × List UInt8), bufs.map Prod.snd = msgs.map (fun c => c.msg.wire) →
      Receives host reg k σ' bufs (synced t₂.toCore)

/-- **A node that joins.** Whatever the table has been through, a node that starts with an empty copy
and receives the resynchronisation and then the messages of all later calls has the same entries. -/
theorem join_follows {σ σ' : Schema} (hsame : SameWire σ σ') (hfits : σ.Fits)
    (hmode : σ.sync_mode &&& DB_SYNC_NONE = 0) (env : Env)
    (hhook : env.platform_db_sync.isSome = true) (slot_index : ℤ) (t : Table σ)
    (hc : Occupancy t.toCore) (calls : List (Env × LocalOp σ.entry_size))
    (henv : ∀ c ∈ calls, c.1.have_sync = true ∧ c.1.platform_db_sync.isSome = true)
    (host : Host) (reg : Registry) (k : ℕ) (hreg : reg.Holds k (createDbtable σ')) :
    JoinFollows env slot_index t calls host reg k σ' := by
  have hnone : RunBefore t.toCore 0 0 none := rfl
  obtain ⟨t₁, blocks, hcall, hcore, hsent, hle, hcov⟩ :=
    syncRuns_spec env slot_index hfits σ.entry_num 0 t none 0 (zero_add _) hnone
  have hmode' : σ.sync_mode ≠ DB_SYNC_NONE := by
    intro h
    rw [h] at hmode
    exact absurd hmode (by decide)
  obtain ⟨t₂, msgs, hrun, -, hsent₂, hfollow⟩ :=
    runCalls_replicates hsame hfits hmode' calls henv (hcore ▸ hc)
  have hall : dbtableSyncDataAll env t slot_index = .ok t₁ := by
    rw [dbtableSyncDataAll, if_neg (not_not_intro hmode)]
    exact hcall
  refine ⟨t₁, t₂, _, hall, hrun, by rw [hsent₂, hsent, append_assoc], fun bufs hbufs => ?_⟩
  rw [Env.calls, if_pos hhook, map_append, List.map_map, List.map_map] at hbufs
  obtain ⟨bufs₁, bufs₂, rfl, hbufs₁, hbufs₂⟩ := map_eq_append_iff.mp hbufs
  have hblocks := received_blocks hsame hfits host blocks hle
    (fun id hid => by rw [hc.isSome_get]; exact ((hcov id).mp hid).2.2) hreg (occupancy_create σ')
    hbufs₁
  refine receives_append hblocks hreg fun reg' t' hreg' hocc' hsync => ?_
  refine hfollow host reg' k t' bufs₂ hreg' hocc' ?_ hbufs₂
  -- an id in no block exists neither in the table nor in an empty copy
  rw [hsync, hcore]
  funext id
  split_ifs with hid
  · rfl
  · have hno : synced t.toCore id = none := by
      rw [← not_isSome_iff_eq_none, isSome_synced hc]
      exact fun hex => hid ((hcov id).mpr ⟨zero_le _, hc.exist_lt id hex, hex⟩)
    exact (synced_of_get (getEntry_create σ' id)).trans hno.symm

/-- A table with an entry is resynchronised, then gets another one and loses the first. -/
theorem join_follows_insert :
    ∃ t : Table syncedKeys,
      runCalls (createDbtable syncedKeys) [(syncEnv, .hashInsert 0 (twoBytes 1 7))] = .ok t ∧
      (t.entries 0).exist = true ∧
      JoinFollows syncEnv 1 t
        [(syncEnv, .hashInsert 0 (twoBytes 2 9)), (syncEnv, .hashDelete 0 (twoBytes 1 7))]
        ⟨.little, .bits32, false⟩ ⟨[⟨syncedKeys, createDbtable syncedKeys⟩], 0⟩ 0 syncedKeys := by
  have hcreate : Occupancy (createDbtable syncedKeys).toCore := occupancy_create syncedKeys
  obtain ⟨t, hcalls, hex⟩ : ∃ t : Table syncedKeys, runCalls (createDbtable syncedKeys)
      [(syncEnv, .hashInsert 0 (twoBytes 1 7))] = .ok t ∧ (t.entries 0).exist = true :=
    ⟨_, rfl, rfl⟩
  refine ⟨t, hcalls, hex, ?_⟩
  obtain ⟨⟨t', r⟩, hrun⟩ := LocalOp.run_ok (createDbtable syncedKeys) (.hashInsert 0 (twoBytes 1 7))
    (.inl ⟨by decide, by decide⟩ : syncedKeys.Fits ∨ syncEnv.sends syncedKeys true = false)
  rw [runCalls, hrun] at hcalls
  cases hcalls
  refine join_follows syncedKeys_sameWire ⟨by decide, by decide⟩ (by decide) syncEnv rfl 1 _ ?_ _
    (by simp [syncEnv]) _ _ 0 ⟨rfl, rfl⟩
  exact (LocalOp.run_hasEffect _ hcreate hrun).core.occupancy hcreate

end Chanos.Database

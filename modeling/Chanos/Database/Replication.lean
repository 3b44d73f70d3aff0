import Chanos.Database.Exchange

/-!
# Replication over a channel that keeps the order

A master and a replica start with an empty copy of one table. An effect that changes the
synchronised bytes sends a message that makes the same change (`received_effect`), so the messages
of the master, received in order, leave the replica with its synchronised bytes
(`replica_of_runCalls`).
-/

namespace Chanos.Database

open Lib List Bytes

variable {σ σ' : Schema}

/-- The messages of an effect, received by a copy with the same synchronised bytes, make the same
change. -/
theorem received_effect {c c' : Core σ} {site : Option (ℕ × ℕ)} {eff : Effect σ.entry_size}
    {host : Host} {reg : Registry} {k : ℕ} {t : Table σ'} {bufs : List (Env × List UInt8)}
    (hsame : SameWire σ σ') (hfits : σ.Fits) (hst : CoreStep c site eff c') (hc : Occupancy c)
    (hreg : reg.Holds k t) (hocc : Occupancy t.toCore) (hsy : synced t.toCore = synced c)
    (hb : bufs.map Prod.snd = (eff.msgs σ (dbTableGetEntry c)).map SyncMsg.wire) :
    Receives host reg k σ' bufs (synced c') := by
  obtain ⟨as, has, hon⟩ := hst.announces hc
  have hrecv := receives_carried hsame hfits host hreg hocc has hb
  simpa only [hsy, hon, receive_announce] using hrecv

/-! ## Whole runs -/

theorem runCalls_replicates (hsame : SameWire σ σ') (hfits : σ.Fits)
    (hmd : σ.sync_mode ≠ DB_SYNC_NONE) (calls : List (Env × LocalOp σ.entry_size))
    (henv : ∀ c ∈ calls, c.1.have_sync = true ∧ c.1.platform_db_sync.isSome = true)
    {t : Table σ} (hc : Occupancy t.toCore) :
    ∃ t₁ msgs, runCalls t calls = .ok t₁ ∧ Occupancy t₁.toCore ∧ t₁.sent = t.sent ++ msgs ∧
      ∀ (host : Host) (reg : Registry) (k : ℕ) (t' : Table σ') (bufs : List (Env × List UInt8)),
        reg.Holds k t' → Occupancy t'.toCore → synced t'.toCore = synced t.toCore →
        bufs.map Prod.snd = msgs.map (fun c => c.msg.wire) →
        Receives host reg k σ' bufs (synced t₁.toCore) := by
  induction calls generalizing t with
  | nil =>
    refine ⟨t, [], rfl, hc, (append_nil _).symm, ?_⟩
    intro host reg k t' bufs hreg hocc hsy hb
    obtain rfl := map_eq_nil_iff.mp hb
    exact receives_nil hreg hocc hsy
  | cons call calls ih =>
    obtain ⟨env, op⟩ := call
    obtain ⟨hh, hho⟩ := henv (env, op) mem_cons_self
    obtain ⟨⟨t₁, r⟩, hrun⟩ := op.run_ok t (.inl hfits : σ.Fits ∨ env.sends σ true = false)
    obtain ⟨hst, hse⟩ := op.run_hasEffect hc hrun
    obtain ⟨t₂, msgs, hcl, hc₂, hsent₂, hrs⟩ := ih
      (fun c hc' => henv c (mem_cons_of_mem _ hc')) (hst.occupancy hc)
    -- The messages of the effect go out, and nothing else.
    have he : env.emit σ true ((op.effect env t).msgs σ (dbTableGetEntry t.toCore)) =
        ((op.effect env t).msgs σ (dbTableGetEntry t.toCore)).map
          fun m => ⟨m, σ.sync_mode, -1⟩ := by
      have hsn : env.sends σ true = true := by
        rw [Env.sends, hh, bne_iff_ne.mpr hmd]
        rfl
      rw [Env.emit, if_pos hsn, Env.calls, if_pos hho]
    rw [hse, he, append_assoc] at hsent₂
    refine ⟨t₂, _, ?_, hc₂, hsent₂, ?_⟩
    · rw [runCalls, hrun]
      exact hcl
    intro host reg k t' bufs hreg hocc hsy hb
    rw [map_append, map_map] at hb
    obtain ⟨bufs₁, bufs₂, rfl, hbufs₁, hbufs₂⟩ := map_eq_append_iff.mp hb
    exact receives_append (received_effect hsame hfits hst hc hreg hocc hsy hbufs₁) hreg
      fun reg' t₁' hreg' hocc' hsy' => hrs host reg' k t₁' bufs₂ hreg' hocc' hsy' hbufs₂

/-- A master and a replica with the same name, sizes and conversions start empty. The calls that the
master makes return; and when the messages they have sent are received in order, the replica has the
same ids as the master, with the same synchronised bytes. -/
theorem replica_of_runCalls {σ σ' : Schema} (hsame : SameWire σ σ') (hfits : σ.Fits)
    (hmode : σ.sync_mode ≠ DB_SYNC_NONE) (calls : List (Env × LocalOp σ.entry_size))
    (henv : ∀ c ∈ calls, c.1.have_sync = true ∧ c.1.platform_db_sync.isSome = true)
    (host : Host) (reg : Registry) (k : ℕ) (hreg : reg.Holds k (createDbtable σ')) :
    ∃ t, runCalls (createDbtable σ) calls = .ok t ∧
      ∀ bufs : List (Env × List UInt8), bufs.map Prod.snd = t.sent.map (fun c => c.msg.wire) →
        ∃ reg' t', Received host reg bufs (.ok reg') ∧ reg'.tables[k]? = some ⟨σ', t'⟩ ∧
          ∀ id, (t'.entries id).exist = (t.entries id).exist ∧
            (t'.entries id).real_data.map (head σ'.sync_size) =
              (t.entries id).real_data.map (head σ.sync_size) := by
  have hcreate : Occupancy (createDbtable σ).toCore := occupancy_create σ
  obtain ⟨t, msgs, hrun, hc, hsent, hrecv⟩ :=
    runCalls_replicates hsame hfits hmode calls henv hcreate
  have hempty : synced (createDbtable σ').toCore = synced (createDbtable σ).toCore := by
    funext id
    exact (synced_of_get (getEntry_create σ' id)).trans
      (synced_of_get (getEntry_create σ id)).symm
  refine ⟨t, hrun, fun bufs hbufs => ?_⟩
  rw [hsent] at hbufs
  obtain ⟨t', hreceived, hocc, hsync⟩ := hrecv host reg k (createDbtable σ') bufs hreg
    (occupancy_create σ') hempty hbufs
  exact ⟨_, t', hreceived, (hreg.set t').table,
    fun id => agree_of_synced hc hocc (congrFun hsync id)⟩

/-- An insertion and an update are replicated. -/
theorem replica_of_runCalls_two :
    ∃ t : Table syncedKeys, runCalls (createDbtable syncedKeys)
        [(syncEnv, .hashInsert 0 (twoBytes 1 7)), (syncEnv, .hashUpdate 0 (twoBytes 1 8))] = .ok t ∧
      ∀ bufs : List (Env × List UInt8), bufs.map Prod.snd = t.sent.map (fun c => c.msg.wire) →
        ∃ reg' t', Received ⟨.little, .bits32, false⟩
            ⟨[⟨syncedKeys, createDbtable syncedKeys⟩], 0⟩ bufs (.ok reg') ∧
          reg'.tables[0]? = some ⟨syncedKeys, t'⟩ ∧
          ∀ id, (t'.entries id).exist = (t.entries id).exist ∧
            (t'.entries id).real_data.map (head syncedKeys.sync_size) =
              (t.entries id).real_data.map (head syncedKeys.sync_size) := by
  refine replica_of_runCalls syncedKeys_sameWire ⟨by decide, by decide⟩ (by decide) _ ?_ _ _ 0
    ⟨rfl, rfl⟩
  intro c hc
  rcases mem_cons.mp hc with rfl | hc
  · exact ⟨rfl, rfl⟩
  · rw [mem_singleton.mp hc]
    exact ⟨rfl, rfl⟩

/-- A table with the mode `DB_SYNC_NONE` sends nothing: after an insertion the master has an entry,
and the replica, which has received everything that was sent, has none. -/
theorem replica_of_unsynced :
    ∃ t, runCalls (createDbtable twoKeys) [(syncEnv, .hashInsert 0 (twoBytes 1 7))] = .ok t ∧
      t.sent = [] ∧ (t.entries 0).exist = true ∧
      Received ⟨.little, .bits32, false⟩ ⟨[⟨twoKeys, createDbtable twoKeys⟩], 0⟩ []
        (.ok ⟨[⟨twoKeys, createDbtable twoKeys⟩], 0⟩) ∧
      ((createDbtable twoKeys).entries 0).exist = false :=
  ⟨_, rfl, rfl, rfl, .nil, rfl⟩

end Chanos.Database

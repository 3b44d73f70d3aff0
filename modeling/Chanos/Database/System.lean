import Chanos.Database.Recv

/-!
# A database at work

A database holds several tables, on which threads call operations while calls of `dbtable_recv` are
in progress. `SystemStep` is one step of that: an operation, the arrival of a buffer, or one round
of a receiving call.
-/

namespace Chanos.Database

open Lib Option Except EntryOutcome RecvOutcome Bytes

variable {σ : Schema}

def mergeEffect (c : Core σ) (entry_id : ℕ) (data : σ.Data) : Effect σ.entry_size :=
  match dbTableGetEntry c entry_id with
  | some predata => .update entry_id (splice σ.sync_size (σ.ntoh data) predata)
  | none => .none

def recvEffect (c : Core σ) (op : SyncOp) (entry_id : ℕ) (data : Except Fault σ.Data) :
    Effect σ.entry_size :=
  match op, data with
  | .itemAdd, .ok data | .tableAdd, .ok data =>
    match dbTableInternalAlloc c entry_id with
    | none => mergeEffect c entry_id data
    | some _ => .insert entry_id (σ.ntoh data)
  | .itemUpdate, .ok data => mergeEffect c entry_id data
  | .itemDel, _ => deleteEffect c entry_id
  | _, _ => .none

/-- How the handling of one entry of a message ends. -/
inductive RecvEnd (env : Env) (t : Table σ) (op : SyncOp) (entry_id : ℕ) :
    Effect σ.entry_size → Table σ → Prop
  | skip : RecvEnd env t op entry_id .none t
  | insert {data : σ.Data} {t' : Table σ} {r : ℤ} {written : Option σ.Data}
      (hfr : entry_id ∈ t.entry_alloc_list)
      (h : recvInsert env { t with toCore := t.toCore.take entry_id } entry_id data =
        .ok (.next t' r written)) : RecvEnd env t op entry_id (.insert entry_id data) t'
  | update {data predata : σ.Data} {t' : Table σ} {r : ℤ} {written : Option σ.Data}
      (hget : dbTableGetEntry t.toCore entry_id = some predata)
      (h : recvUpdate env t entry_id data predata (op == .itemUpdate) = .next t' r written) :
    RecvEnd env t op entry_id (.update entry_id (splice σ.sync_size data predata)) t'
  | delete {data : Except Fault σ.Data} {w written : Option σ.Data} {t' : Table σ} {r : ℤ}
      (h : recvDelete env t entry_id data w = .ok (.next t' r written)) :
    RecvEnd env t op entry_id (deleteEffect t.toCore entry_id) t'

theorem of_map_bind_ok {α β γ ε : Type} {x : Except ε α} {f : α → β} {g : β → Except ε γ} {y : γ}
    (h : (x.map f >>= g) = .ok y) : ∃ a, x = .ok a ∧ g (f a) = .ok y := by
  cases x with
  | error e => nomatch h
  | ok a => exact ⟨a, rfl, h⟩

section

variable {env : Env} {t t' : Table σ} {entry_id : ℕ} {op_ret r : ℤ} {written : Option σ.Data}
  {data : Except Fault σ.Data}

theorem recvUpdate_hasEffect {data predata : σ.Data} {clear : Bool} (hocc : Occupancy t.toCore)
    (hget : dbTableGetEntry t.toCore entry_id = some predata)
    (h : recvUpdate env t entry_id data predata clear = .next t' r written) :
    HasEffect env false t none (.update entry_id (splice σ.sync_size data predata)) t' := by
  have he : rewriteEffect t.toCore entry_id (splice σ.sync_size data predata) =
      .update entry_id (splice σ.sync_size data predata) := by
    rw [rewriteEffect, hget]
    rfl
  cases h
  rw [← he]
  refine updateEntry_hasEffect hocc none (fun _ _ _ _ hi => absurd hi (by simp)) ?_ ?_
  all_goals split_ifs <;> simp

theorem recvInsert_hasEffect {data : σ.Data} (hocc : Occupancy t.toCore)
    (hfr : entry_id ∈ t.entry_alloc_list)
    (h : recvInsert env { t with toCore := t.toCore.take entry_id } entry_id data =
      .ok (.next t' r written)) :
    HasEffect env false t none (.insert entry_id data) t' := by
  obtain ⟨t₁, hin, ht'⟩ := bind_eq_ok.mp h
  cases ht'
  refine insertEntry_hasEffect hocc hfr (.off fun _ hi => absurd hi (by simp)) hin ?_ ?_
  all_goals split_ifs <;> simp

theorem callDeleteHandler_spec {handler : Option (Handler σ.entry_size)}
    {call : σ.Data → HandlerCall σ.entry_size} {p : Table σ × ℤ}
    (h : callDeleteHandler t handler call data op_ret = .ok p) :
    p.1.toCore = t.toCore ∧ p.1.sent = t.sent := by
  cases handler with
  | none =>
    cases h
    exact ⟨rfl, rfl⟩
  | some f =>
    obtain ⟨d, -, hp⟩ := bind_eq_ok.mp h
    cases hp
    exact ⟨callHandler_toCore _ _ _ _, callHandler_sent _ _ _ _⟩

theorem recvEntry_end {op : SyncOp}
    (h : recvEntry env t op entry_id data op_ret = .ok (.next t' r written)) :
    RecvEnd env t op entry_id (recvEffect t.toCore op entry_id data) t' := by
  obtain ⟨w, -, h⟩ := bind_eq_ok.mp h
  cases op with
  | itemAdd | tableAdd =>
    unfold recvAdd at h
    cases halc : dbTableInternalAlloc t.toCore entry_id with rw [halc] at h
    | some c =>
      obtain ⟨d, rfl, h⟩ := of_map_bind_ok h
      obtain ⟨hfr, rfl⟩ := internalAlloc_eq_some halc
      rw [recvEffect, halc]
      exact .insert hfr h
    | none =>
      cases hget : dbTableGetEntry t.toCore entry_id with rw [hget] at h
      | none => cases h
      | some predata =>
        obtain ⟨d, rfl, h⟩ := of_map_bind_ok h
        rw [recvEffect, halc]
        rw [mergeEffect, hget]
        exact .update hget (ok.inj h)
  | itemUpdate =>
    unfold recvItemUpdate at h
    cases hget : dbTableGetEntry t.toCore entry_id with rw [hget] at h
    | none => cases h
    | some predata =>
      obtain ⟨d, rfl, h⟩ := of_map_bind_ok h
      rw [recvEffect, mergeEffect, hget]
      exact .update hget (ok.inj h)
  | itemDel => cases data <;> exact .delete h
  | tblSync | complete | other code =>
    cases h
    cases data <;> exact .skip

section

variable (hocc : Occupancy t.toCore)
include hocc

theorem recvDelete_hasEffect {w : Option σ.Data}
    (h : recvDelete env t entry_id data w = .ok (.next t' r written)) :
    HasEffect env false t none (deleteEffect t.toCore entry_id) t' := by
  obtain ⟨p, hp, h⟩ := bind_eq_ok.mp h
  obtain ⟨q, hq, h⟩ := bind_eq_ok.mp h
  cases h
  obtain ⟨hp1, hp2⟩ := callDeleteHandler_spec hp
  obtain ⟨hq1, hq2⟩ := callDeleteHandler_spec hq
  have hco : (dbTableSyncedEntry q.1 entry_id .hwSwSynced).toCore = t.toCore := by
    rw [syncedEntry_toCore, hq1, hp1]
  have hse : (dbTableSyncedEntry q.1 entry_id .hwSwSynced).sent = t.sent := by
    rw [syncedEntry_sent, hq2, hp2]
  generalize dbTableSyncedEntry q.1 entry_id .hwSwSynced = t₂ at hco hse ⊢
  unfold deleteEffect
  cases hget : dbTableGetEntry t.toCore entry_id with
  | none =>
    -- There is no such entry, so its nodes are not looked for.
    have hfr : dbTableFreeEntryIndex env t₂ entry_id none = t₂ := by
      rw [dbTableFreeEntryIndex, Core.freeEntryIndex, hco, hget]
      rw [← hco]
    have hsk : HasEffect env false t none .none t := .skip
    rw [hfr, deleteEntry_none (by rw [hco]; exact hocc) (by rw [hco]; exact hget)]
    exact ⟨by rw [hco]; exact .skip, by rw [hse]; exact hsk.sent⟩
  | some old =>
    have hunl : Unlinked t.toCore entry_id none t.toCore := .off fun _ hi => absurd hi (by simp)
    refine deleteEntry_hasEffect hocc hunl hget ?_ hse
    rw [dbTableFreeEntryIndex, hco]

theorem RecvEnd.hasEffect {op : SyncOp} {eff : Effect σ.entry_size}
    (h : RecvEnd env t op entry_id eff t') : HasEffect env false t none eff t' := by
  cases h with
  | skip => exact .skip
  | insert hfr h => exact recvInsert_hasEffect hocc hfr h
  | update hget h => exact recvUpdate_hasEffect hocc hget h
  | delete h => exact recvDelete_hasEffect hocc h

theorem recvEntry_hasEffect {op : SyncOp}
    (h : recvEntry env t op entry_id data op_ret = .ok (.next t' r written)) :
    HasEffect env false t none (recvEffect t.toCore op entry_id data) t' :=
  (recvEntry_end h).hasEffect hocc

end

theorem recvEntry_ret {op : SyncOp} {code : ℤ}
    (h : recvEntry env t op entry_id data op_ret = .ok (.ret t' code)) :
    (t' = t ∧ code = -1) ∧ dbTableGetEntry t.toCore entry_id = none ∧
      (op = .itemUpdate ∨ dbTableInternalAlloc t.toCore entry_id = none) := by
  obtain ⟨w, -, h⟩ := bind_eq_ok.mp h
  have ha : recvAdd env t entry_id (data.map σ.ntoh) = .ok (.ret t' code) →
      (t' = t ∧ code = -1) ∧ dbTableGetEntry t.toCore entry_id = none ∧
        dbTableInternalAlloc t.toCore entry_id = none := by
    intro h
    unfold recvAdd at h
    split at h
    · obtain ⟨d, -, h⟩ := bind_eq_ok.mp h
      obtain ⟨t₁, -, h⟩ := bind_eq_ok.mp h
      cases h
    · rename_i halc
      split at h
      · rename_i hget
        cases h
        exact ⟨⟨rfl, rfl⟩, hget, halc⟩
      · obtain ⟨d, -, h⟩ := bind_eq_ok.mp h
        cases h
  cases op with
  | itemAdd | tableAdd => exact ⟨(ha h).1, (ha h).2.1, .inr (ha h).2.2⟩
  | itemDel =>
    obtain ⟨p, -, h⟩ := bind_eq_ok.mp h
    obtain ⟨q, -, h⟩ := bind_eq_ok.mp h
    cases h
  | itemUpdate =>
    dsimp only at h
    unfold recvItemUpdate at h
    split at h
    · rename_i hget
      cases h
      exact ⟨⟨rfl, rfl⟩, hget, .inl rfl⟩
    · obtain ⟨d, -, h⟩ := bind_eq_ok.mp h
      cases h
  | tblSync | complete | other code => cases h

end

/-! ## Rounds of the machine -/

section

variable {host : Host} {env : Env} {reg reg' : Registry} {s s' : RecvState}

/-- The next round of the machine applies the entry `data` to the entry `entry_id` of the table at
position `db`. -/
structure RecvApplies (host : Host) (reg : Registry) (s : RecvState) (db : ℕ) (a : AnyTable)
    (op : SyncOp) (entry_id : ℕ) (data : Except Fault a.schema.Data) : Prop where
  table : reg.tables[db]? = some a
  lt : entry_id < a.schema.entry_num
  entry : ∃ f b, s.frame = some f ∧ f.db = db ∧ load s.buf s.buffer headerSize = some b ∧
    let h := SyncHeader.decode host.endian b
    let off := if f.i = 0 then f.data else f.data + signed32 h.entry_len
    f.i < h.entry_num.toNat ∧ op = switchOp host s h off (a.schema.converted data) ∧
      entry_id = (h.start_index.toNat + f.i) % 2 ^ 32 ∧
      data = access s.buf off a.schema.entry_size

inductive RecvRound (host : Host) (env : Env) (reg : Registry) (s : RecvState) : Registry → Prop
  | same {completions : ℕ} : RecvRound host env reg s { reg with completions := completions }
  | apply {db : ℕ} {a : AnyTable} {op : SyncOp} {entry_id : ℕ} {data : Except Fault a.schema.Data}
      {t' : Table a.schema} {r : ℤ} {written : Option a.schema.Data}
      (happ : RecvApplies host reg s db a op entry_id data)
      (hentr : recvEntry env a.table op entry_id data s.op_ret = .ok (.next t' r written)) :
    RecvRound host env reg s { reg with tables := reg.tables.set db ⟨a.schema, t'⟩ }

theorem set_eq_self_of_getElem? {α : Type*} {l : List α} {i : ℕ} {a : α} (h : l[i]? = some a) :
    l.set i a = l := by
  obtain ⟨hlt, rfl⟩ := List.getElem?_eq_some_iff.mp h
  exact List.set_getElem_self hlt

theorem recvHeader_round (h : (recvHeader host reg s).registry = some reg') :
    RecvRound host env reg s reg' := by
  unfold recvHeader at h
  split_ifs at h with hlen
  · cases h
    exact .same
  split at h
  · cases h
  unfold recvMessage at h
  split at h
  · cases h
    exact .same
  · split at h
    · cases h
      exact .same
    · split at h <;> cases h <;> exact .same

theorem recvFrame_round {f : RecvFrame} (hf : s.frame = some f)
    (h : (recvFrame host env reg s f).registry = some reg') : RecvRound host env reg s reg' := by
  unfold recvFrame at h
  split at h
  · rename_i b a hb ha
    dsimp only at h
    split_ifs at h with hi
    · cases h
      exact .same
    unfold recvNth at h
    dsimp only at h
    split at h
    · cases h
      exact .same
    · rename_i hid
      unfold recvAfter at h
      split at h
      · cases h
      · -- An entry that ends the call has changed nothing.
        rename_i t code hent
        obtain ⟨⟨rfl, -⟩, -⟩ := recvEntry_ret hent
        cases h
        rw [set_eq_self_of_getElem? ha]
        exact .same
      · rename_i t op_ret written hent
        cases h
        exact .apply ⟨ha, by omega, f, b, hf, rfl, hb, by omega, rfl, rfl, rfl⟩ hent
  · cases h

theorem recvStep_round (h : (recvStep host env reg s).registry = some reg') :
    RecvRound host env reg s reg' := by
  unfold recvStep at h
  cases hf : s.frame with rw [hf] at h
  | none => exact recvHeader_round h
  | some f => exact recvFrame_round hf h

end

/-! ## The system -/

abbrev Condition : Type :=
  (σ : Schema) → Core σ → Option (ℕ × ℕ) → Effect σ.entry_size → Prop

structure System where
  reg : Registry
  recvs : List RecvState

def System.start (schemas : List Schema) : System where
  reg := { tables := schemas.map fun σ => ⟨σ, createDbtable σ⟩, completions := 0 }
  recvs := []

inductive SystemStep (host : Host) (ok : Condition) : System → System → Prop
  | localOp {reg : Registry} {recvs : List RecvState} {k : ℕ} {a : AnyTable} {env : Env}
      {op : LocalOp a.schema.entry_size} {t' : Table a.schema} {r : ℤ}
      (htbl : reg.tables[k]? = some a) (hrun : op.run env a.table = .ok (t', r))
      (hok : ok a.schema a.table.toCore (op.site a.schema) (op.effect env a.table)) :
    SystemStep host ok ⟨reg, recvs⟩
      ⟨{ reg with tables := reg.tables.set k ⟨a.schema, t'⟩ }, recvs⟩
  | arrival {reg : Registry} {recvs : List RecvState} (buf : List UInt8) :
    SystemStep host ok ⟨reg, recvs⟩ ⟨reg, .init buf :: recvs⟩
  | recvNext {reg reg' : Registry} {recvs : List RecvState} {j : ℕ} {s s' : RecvState} {env : Env}
      (hrecv : recvs[j]? = some s) (hst : recvStep host env reg s = .next reg' s')
      (hok : ∀ db a op entry_id data, RecvApplies host reg s db a op entry_id data →
        ok a.schema a.table.toCore none (recvEffect a.table.toCore op entry_id data)) :
    SystemStep host ok ⟨reg, recvs⟩ ⟨reg', recvs.set j s'⟩
  | recvRet {reg reg' : Registry} {recvs : List RecvState} {j : ℕ} {s : RecvState} {env : Env}
      {code : ℤ} (hrecv : recvs[j]? = some s) (hst : recvStep host env reg s = .ret reg' code)
      (hok : ∀ db a op entry_id data, RecvApplies host reg s db a op entry_id data →
        ok a.schema a.table.toCore none (recvEffect a.table.toCore op entry_id data)) :
    SystemStep host ok ⟨reg, recvs⟩ ⟨reg', recvs.eraseIdx j⟩

/-- The state comes from new tables by steps that meet `ok`. -/
def Reachable (host : Host) (ok : Condition) (schemas : List Schema) (s : System) : Prop :=
  Relation.ReflTransGen (SystemStep host ok) (System.start schemas) s

inductive TablesStep (ok : Condition) (tables : List AnyTable) : List AnyTable → Prop
  | same : TablesStep ok tables tables
  | step {k : ℕ} {a : AnyTable} {t' : Table a.schema} {site : Option (ℕ × ℕ)}
      {eff : Effect a.schema.entry_size} (htbl : tables[k]? = some a)
      (hco : Occupancy a.table.toCore → CoreStep a.table.toCore site eff t'.toCore)
      (hok : ok a.schema a.table.toCore site eff) :
    TablesStep ok tables (tables.set k ⟨a.schema, t'⟩)

theorem SystemStep.tablesStep {host : Host} {ok : Condition} {s s' : System}
    (h : SystemStep host ok s s') : TablesStep ok s.reg.tables s'.reg.tables := by
  -- A round of `dbtable_recv` applies one entry, or none.
  have hrn : ∀ {env : Env} {reg reg' : Registry} {r : RecvState},
      RecvRound host env reg r reg' →
      (∀ db a op entry_id data, RecvApplies host reg r db a op entry_id data →
        ok a.schema a.table.toCore none (recvEffect a.table.toCore op entry_id data)) →
      TablesStep ok reg.tables reg'.tables := by
    intro env reg reg' r hr hok
    cases hr with
    | same => exact .same
    | apply happ hentr =>
      exact .step happ.table (fun hocc => (recvEntry_hasEffect hocc hentr).core)
        (hok _ _ _ _ _ happ)
  cases h with
  | localOp htbl hrun hok =>
    exact .step htbl (fun hocc => (LocalOp.run_hasEffect _ hocc hrun).core) hok
  | arrival buf => exact .same
  | recvNext hrecv hst hok | recvRet hrecv hst hok =>
    exact hrn (recvStep_round (by rw [hst]; rfl)) hok

theorem Reachable.core_invariant {host : Host} {ok : Condition} {schemas : List Schema} {s : System}
    (P : (σ : Schema) → Core σ → Prop) (hc : ∀ σ ∈ schemas, P σ (Core.create σ))
    (hst : ∀ (σ : Schema) (c c' : Core σ) (site : Option (ℕ × ℕ)) (eff : Effect σ.entry_size),
      σ ∈ schemas → Occupancy c → P σ c → ok σ c site eff → CoreStep c site eff c' → P σ c')
    (h : Reachable host ok schemas s) :
    ∀ a ∈ s.reg.tables, a.schema ∈ schemas ∧ Occupancy a.table.toCore ∧
      P a.schema a.table.toCore := by
  induction h with
  | refl =>
    intro a ha
    obtain ⟨σ, hσ, rfl⟩ := List.mem_map.mp ha
    exact ⟨hσ, occupancy_create σ, hc σ hσ⟩
  | @tail s₁ s₂ _ hla ih =>
    intro a ha
    have ht := hla.tablesStep
    generalize s₂.reg.tables = tables' at ht ha
    cases ht with
    | same => exact ih a ha
    | @step k a₁ t' site eff htbl hco hok =>
      obtain ⟨hσ, hocc, hP⟩ := ih a₁ (List.mem_of_getElem? htbl)
      rcases List.mem_or_eq_of_mem_set ha with ha | rfl
      · exact ih a ha
      · exact ⟨hσ, (hco hocc).occupancy hocc, hst _ _ _ _ _ hσ hocc hP hok (hco hocc)⟩

inductive TableStep (t : Table σ) : Option (ℕ × ℕ) → Effect σ.entry_size → Table σ → Prop
  | localOp {env : Env} {op : LocalOp σ.entry_size} {t' : Table σ} {r : ℤ}
      (h : op.run env t = .ok (t', r)) : TableStep t (op.site σ) (op.effect env t) t'
  | received {env : Env} {op : SyncOp} {entry_id : ℕ} {data : Except Fault σ.Data} {op_ret : ℤ}
      {t' : Table σ} {r : ℤ} {written : Option σ.Data}
      (h : recvEntry env t op entry_id data op_ret = .ok (.next t' r written)) :
    TableStep t none (recvEffect t.toCore op entry_id data) t'

theorem TableStep.coreStep {t t' : Table σ} {site : Option (ℕ × ℕ)} {eff : Effect σ.entry_size}
    (h : TableStep t site eff t') (hocc : Occupancy t.toCore) :
    CoreStep t.toCore site eff t'.toCore := by
  cases h with
  | localOp h => exact (LocalOp.run_hasEffect _ hocc h).core
  | received h => exact (recvEntry_hasEffect hocc h).core

/-- The table comes from a new one by steps that meet `ok`. -/
def TableReachable (ok : Core σ → Option (ℕ × ℕ) → Effect σ.entry_size → Prop) (t : Table σ) :
    Prop :=
  Relation.ReflTransGen (fun t t' => ∃ site eff, TableStep t site eff t' ∧ ok t.toCore site eff)
    (createDbtable σ) t

theorem TableReachable.invariant
    {ok : Core σ → Option (ℕ × ℕ) → Effect σ.entry_size → Prop} {t : Table σ}
    (P : Core σ → Prop) (hc : P (Core.create σ))
    (hst : ∀ (t t' : Table σ) (site : Option (ℕ × ℕ)) (eff : Effect σ.entry_size),
      Occupancy t.toCore → P t.toCore → ok t.toCore site eff → TableStep t site eff t' →
        P t'.toCore)
    (h : TableReachable ok t) : Occupancy t.toCore ∧ P t.toCore := by
  induction h with
  | refl => exact ⟨occupancy_create σ, hc⟩
  | tail _ hla ih =>
    obtain ⟨site, eff, hs, hok⟩ := hla
    exact ⟨(hs.coreStep ih.1).occupancy ih.1, hst _ _ _ _ ih.1 ih.2 hok hs⟩

end Chanos.Database

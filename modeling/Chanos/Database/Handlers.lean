import Chanos.Database.System

/-!
# What the handlers are told

Every write of an entry tells one of the handlers of its table, and a write by a received message
tells the application's handler after it. The answer of the last one decides what becomes of the
flag `DB_HW_SW_SYNCED`.
-/

namespace Chanos.Database

open Lib Except EntryOutcome

variable {σ : Schema}

structure Notice (n : ℕ) where
  handler : Option (Handler n)
  call : HandlerCall n

def tell {n : ℕ} : List (Notice n) → List (HandlerCall n) × ℤ → List (HandlerCall n) × ℤ
  | [], r => r
  | ⟨none, _⟩ :: l, r => tell l r
  | ⟨some f, call⟩ :: l, r => tell l (r.1 ++ [call], f r.1 call)

def Effect.notices (σ : Schema) (get : ℕ → Option σ.Data) :
    Effect σ.entry_size → List (Notice σ.entry_size)
  | .none => []
  | .insert _ data => [⟨σ.handle_insert, .handleInsert data⟩]
  | .update entry_id data =>
    (get entry_id).toList.map fun old => ⟨σ.handle_update, .handleUpdate data old⟩
  | .delete entry_id => (get entry_id).toList.map fun old => ⟨σ.handle_delete, .handleDelete old⟩

def Effect.appNotices (σ : Schema) (get : ℕ → Option σ.Data) :
    Effect σ.entry_size → List (Notice σ.entry_size)
  | .insert _ data => [⟨σ.app_handle_update, .appHandleUpdate data data⟩]
  | .update entry_id data =>
    (get entry_id).toList.map fun old => ⟨σ.app_handle_update, .appHandleUpdate data old⟩
  | .none | .delete _ => []

theorem tell_append {n : ℕ} (l l' : List (Notice n)) (r : List (HandlerCall n) × ℤ) :
    tell (l ++ l') r = tell l' (tell l r) := by
  induction l generalizing r with
  | nil => rfl
  | cons a l ih =>
    obtain ⟨_ | f, call⟩ := a
    · exact ih r
    · exact ih _

section

variable (t : Table σ) (handler : Option (Handler σ.entry_size)) (call : HandlerCall σ.entry_size)
  (ret : ℤ)
include handler

theorem callHandler_tell :
    ((callHandler t handler call ret).1.calls, (callHandler t handler call ret).2) =
      tell [⟨handler, call⟩] (t.calls, ret) := by
  cases handler <;> rfl

theorem callHandler_calls :
    (callHandler t handler call ret).1.calls = (tell [⟨handler, call⟩] (t.calls, ret)).1 :=
  congrArg Prod.fst (callHandler_tell t handler call ret)

@[simp]
theorem callHandler_flags : (callHandler t handler call ret).1.flags = t.flags := by
  cases handler <;> rfl

end

/-! ## The mutators call no handler -/

section

variable {env : Env} {t t' : Table σ} {entry_id : ℕ} {data : σ.Data} {orig_index : Option ℕ}
  {local_flag : Bool}

def Table.hardware (t : Table σ) : List (HandlerCall σ.entry_size) × (ℕ → Bool) :=
  (t.calls, t.flags .hwSwSynced)

theorem syncedEntry_master (t : Table σ) (entry_id : ℕ) :
    (dbTableSyncedEntry t entry_id .masterSlaveSynced).hardware = t.hardware := by
  unfold dbTableSyncedEntry
  split_ifs
  · rfl
  · rw [Table.hardware, Table.hardware]
    dsimp only
    rw [Function.update_of_ne (by decide)]

theorem syncData_hardware (env : Env) (t : Table σ) (op : SyncOp) (start_id num : ℕ)
    (slot_index : ℤ) : (dbtableSyncData env t op start_id num slot_index).hardware = t.hardware := by
  have hmk : ∀ (l : List ℕ) (t : Table σ),
      (l.foldl (fun t i => dbTableSyncedEntry t (start_id + i) .masterSlaveSynced) t).hardware =
        t.hardware := by
    intro l
    induction l with
    | nil => exact fun t => rfl
    | cons i l ih => exact fun t => (ih _).trans (syncedEntry_master t _)
  unfold dbtableSyncData
  cases env.platform_db_sync with
  | none => rfl
  | some db_sync =>
    dsimp only
    split_ifs
    · exact hmk _ _
    · rfl

theorem insertEntry_hardware
    (h : dbTableInsertEntry env t entry_id data orig_index local_flag = .ok t') :
    t'.hardware = t.hardware := by
  have hp : ∀ (l : List (ℕ × ℕ)) (t : Table σ),
      (l.foldl (fun t p => dbtableSyncDataInsertPiece env t p.1 p.2 (-1)) t).hardware =
        t.hardware := by
    intro l
    induction l with
    | nil => exact fun t => rfl
    | cons p l ih => exact fun t => (ih _).trans (syncData_hardware ..)
  unfold dbTableInsertEntry at h
  split_ifs at h
  · rw [← ok.inj h]
  · by_cases hf : σ.Fits
    · rw [syncDataInsert_eq _ _ _ _ _ hf] at h
      rw [← ok.inj h]
      exact hp _ _
    · rw [syncDataInsert_error _ _ _ _ _ hf] at h
      cases h
  · rw [← ok.inj h]
    rfl

theorem updateEntry_hardware (env : Env) (t : Table σ) (entry_id : ℕ) (data : σ.Data)
    (orig_index : Option ℕ) (local_flag : Bool) :
    (dbTableUpdateEntry env t entry_id data orig_index local_flag).1.hardware = t.hardware := by
  unfold dbTableUpdateEntry
  split_ifs
  · rfl
  cases (t.entries entry_id).real_data with
  | none => rfl
  | some old =>
    dsimp only
    split_ifs
    · exact syncData_hardware ..
    · rfl

theorem deleteEntry_hardware (env : Env) (t : Table σ) (entry_id : ℕ) (local_flag : Bool) :
    (dbTableDeleteEntry env t entry_id local_flag).hardware = t.hardware := by
  unfold dbTableDeleteEntry
  split_ifs
  · rfl
  · exact syncData_hardware ..
  · rfl
  · rfl

end

/-! ## What a write tells -/

/-- A write of an entry has told the handlers of `notices`, and has marked the entry by the last
answer: the flag is set when it is `0`, and otherwise cleared, or left as it was where `keeps` is
true. -/
structure Told (t : Table σ) (notices : List (Notice σ.entry_size)) (keeps : Bool) (entry_id : ℕ)
    (t' : Table σ) : Prop where
  calls : t'.calls = (tell notices (t.calls, 0)).1
  flag : t'.flags .hwSwSynced entry_id =
    (decide ((tell notices (t.calls, 0)).2 = 0) || keeps && t.flags .hwSwSynced entry_id)
  others : ∀ j, j ≠ entry_id → t'.flags .hwSwSynced j = t.flags .hwSwSynced j

def Effect.written {n : ℕ} : Effect n → Option ℕ
  | .insert entry_id _ | .update entry_id _ => some entry_id
  | .none | .delete _ => Option.none

/-- A step has told the handlers of what it has written, and has left the other flags alone. -/
def Marks (t : Table σ) (remote keeps : Bool) (t' : Table σ) (eff : Effect σ.entry_size) : Prop :=
  match eff.written with
  | some entry_id =>
    Told t (eff.notices σ (dbTableGetEntry t.toCore) ++
      if remote then eff.appNotices σ (dbTableGetEntry t.toCore) else []) keeps entry_id t'
  | none => ∀ j, (eff.apply (dbTableGetEntry t.toCore) j).isSome = true →
      t'.flags .hwSwSynced j = t.flags .hwSwSynced j

section

variable {env : Env} {t t₁ t' : Table σ} {i entry_id : ℕ} {data old : σ.Data} {keeps : Bool}

def markEntry (t : Table σ) (entry_id : ℕ) (ret : ℤ) (clear : Bool) : Table σ :=
  if ret = 0 then dbTableSyncedEntry t entry_id .hwSwSynced
  else if clear then dbTableUnsyncedEntry t entry_id .hwSwSynced
  else t

theorem markEntry_calls (t : Table σ) (entry_id : ℕ) (ret : ℤ) (clear : Bool) :
    (markEntry t entry_id ret clear).calls = t.calls := by
  unfold markEntry dbTableUnsyncedEntry
  split_ifs <;> simp

theorem markEntry_of_ne (t : Table σ) (ret : ℤ) (clear : Bool) {j : ℕ} (hj : j ≠ entry_id) :
    (markEntry t entry_id ret clear).flags .hwSwSynced j = t.flags .hwSwSynced j := by
  unfold markEntry dbTableSyncedEntry dbTableUnsyncedEntry
  split_ifs <;> simp [hj]

theorem markEntry_self (t : Table σ) (ret : ℤ) (clear : Bool) (hlt : entry_id < σ.entry_num) :
    (markEntry t entry_id ret clear).flags .hwSwSynced entry_id =
      (decide (ret = 0) || !clear && t.flags .hwSwSynced entry_id) := by
  unfold markEntry dbTableSyncedEntry dbTableUnsyncedEntry
  rw [if_neg (Nat.not_le.mpr hlt), if_neg (Nat.not_le.mpr hlt)]
  by_cases hr : ret = 0
  · simp [hr]
  · cases clear <;> simp [hr]

theorem Told.of_mark {notices : List (Notice σ.entry_size)} {ret : ℤ} (clear : Bool)
    (hlt : entry_id < σ.entry_num) (hn : (t₁.calls, ret) = tell notices (t.calls, 0))
    (hf : t₁.flags .hwSwSynced = t.flags .hwSwSynced) :
    Told t notices (!clear) entry_id (markEntry t₁ entry_id ret clear) := by
  obtain ⟨hc, rfl⟩ := Prod.mk.inj hn
  exact
    { calls := (markEntry_calls ..).trans hc
      flag := by rw [markEntry_self _ _ _ hlt, hf]
      others := fun j hj => by rw [markEntry_of_ne _ _ _ hj, hf] }

theorem callHandler_tell_after (handler : Option (Handler σ.entry_size))
    (call : HandlerCall σ.entry_size) {ret : ℤ} {notices : List (Notice σ.entry_size)}
    {r : List (HandlerCall σ.entry_size) × ℤ} (h : (t.calls, ret) = tell notices r) :
    ((callHandler t handler call ret).1.calls, (callHandler t handler call ret).2) =
      tell (notices ++ [⟨handler, call⟩]) r := by
  rw [callHandler_tell, tell_append, h]

theorem updateVia_told (ho : Occupancy t.toCore)
    (hget : dbTableGetEntry t.toCore entry_id = some old) :
    Told t [⟨σ.handle_update, .handleUpdate data old⟩] false entry_id
      (updateVia env t i entry_id data old) := by
  obtain ⟨hc, hf⟩ := Prod.mk.inj (updateEntry_hardware env t entry_id data (some i) true)
  have hn := callHandler_tell (dbTableUpdateEntry env t entry_id data (some i) true).1
    σ.handle_update (.handleUpdate data old) 0
  rw [hc] at hn
  exact .of_mark true (ho.lt_of_get hget) hn (by rw [callHandler_flags, hf])

theorem updateVia_flags {j : ℕ} (hne : j ≠ entry_id) :
    (updateVia env t i entry_id data old).flags .hwSwSynced j = t.flags .hwSwSynced j := by
  obtain ⟨-, hf⟩ := Prod.mk.inj (updateEntry_hardware env t entry_id data (some i) true)
  change (markEntry (callHandler _ _ _ _).1 entry_id _ true).flags .hwSwSynced j = _
  rw [markEntry_of_ne _ _ _ hne, callHandler_flags, hf]

theorem insertVia_told {clear : Bool} (hlt : entry_id < σ.entry_num)
    (h : insertVia env t₁ i entry_id data clear = .ok t') (hsm : t₁.hardware = t.hardware) :
    Told t [⟨σ.handle_insert, .handleInsert data⟩] (!clear) entry_id t' := by
  obtain ⟨t₂, hi, ht'⟩ := bind_eq_ok.mp h
  cases ht'
  obtain ⟨hc, hf⟩ := Prod.mk.inj ((insertEntry_hardware hi).trans hsm)
  have hn := callHandler_tell t₂ σ.handle_insert (.handleInsert data) 0
  rw [hc] at hn
  exact .of_mark clear hlt hn (by rw [callHandler_flags, hf])

theorem delete_hardware (env : Env) (t₂ : Table σ) (entry_id : ℕ) (d : σ.Data)
    (hsm : t₂.hardware = t.hardware) :
    (dbTableDeleteEntry env (callHandler t₂ σ.handle_delete (.handleDelete d) 0).1 entry_id
      true).hardware =
      ((tell [⟨σ.handle_delete, .handleDelete d⟩] (t.calls, 0)).1, t.flags .hwSwSynced) := by
  obtain ⟨hc, hf⟩ := Prod.mk.inj hsm
  rw [deleteEntry_hardware, Table.hardware, callHandler_flags, callHandler_calls, hc, hf]

theorem deleteVia_hardware {b : ℕ} {l : List ℕ} :
    (deleteVia env { t with toCore := t.toCore.setChain i b l } i entry_id old).1.hardware =
      ((tell [⟨σ.handle_delete, .handleDelete ((dbTableGetEntry t.toCore entry_id).getD old)⟩]
        (t.calls, 0)).1, t.flags .hwSwSynced) := by
  have hsm := getEntry_congr
    (Core.freeEntryIndex_store (t.toCore.setChain i b l) (env.malloc _) entry_id (some i)).1
  refine (delete_hardware (t := t) env (dbTableFreeEntryIndex env
    { t with toCore := t.toCore.setChain i b l } entry_id (some i)) entry_id _ rfl).trans ?_
  exact congrArg (fun d => ((tell [⟨σ.handle_delete, .handleDelete (Option.getD d old)⟩]
    (t.calls, 0)).1, t.flags .hwSwSynced)) (congrFun hsm entry_id)

end

/-! ## The operations -/

def Effect.isInsert {n : ℕ} : Effect n → Bool
  | .insert _ _ => true
  | .none | .update _ _ | .delete _ => false

def LocalOp.keepsFlag {n : ℕ} (op : LocalOp n) (eff : Effect n) : Bool := op.chained && eff.isInsert

section

variable {env : Env} {t t' : Table σ} {i b : ℕ} {data : σ.Data} {r : ℤ}

theorem Marks.skip {remote keeps : Bool} : Marks t remote keeps t .none := fun _ _ => rfl

/-- A step that writes no entry and changes the flag of one that is not there afterwards. -/
theorem Marks.of_flags {remote keeps : Bool} {eff : Effect σ.entry_size} {entry_id : ℕ}
    (hwr : eff.written = none) (hno : eff.apply (dbTableGetEntry t.toCore) entry_id = none)
    (h : ∀ j, j ≠ entry_id → t'.flags .hwSwSynced j = t.flags .hwSwSynced j) :
    Marks t remote keeps t' eff := by
  rw [Marks, hwr]
  intro j hj
  refine h j ?_
  rintro rfl
  rw [hno] at hj
  cases hj

theorem deleteEffect_spec (c : Core σ) (entry_id : ℕ) :
    (deleteEffect c entry_id).written = none ∧
      (deleteEffect c entry_id).apply (dbTableGetEntry c) entry_id = none := by
  unfold deleteEffect
  cases hget : dbTableGetEntry c entry_id with
  | none => exact ⟨rfl, hget⟩
  | some old => exact ⟨rfl, Function.update_self ..⟩

theorem updateVia_marks {entry_id : ℕ} {old : σ.Data} (ho : Occupancy t.toCore)
    (hrd : dbTableGetEntry t.toCore entry_id = some old ∨
      dbTableGetEntry t.toCore entry_id = none) :
    Marks t false false (updateVia env t i entry_id data old)
      (rewriteEffect t.toCore entry_id data) := by
  unfold rewriteEffect
  rcases hrd with hget | hget
  · rw [hget, Option.isSome_some, if_pos rfl, Marks, Effect.notices, hget]
    exact updateVia_told ho hget
  · rw [hget, Option.isSome_none, if_neg Bool.false_ne_true]
    exact .of_flags rfl hget fun j hj => updateVia_flags hj

theorem OpLeaf.marks {site : Option (ℕ × ℕ)} {chained : Bool} {eff : Effect σ.entry_size}
    (h : OpLeaf env t site chained eff t') (ho : Occupancy t.toCore) :
    Marks t false (chained && eff.isInsert) t' eff := by
  cases h with
  | skip => exact .skip
  | @update i entry_id data old hrd _ =>
    have hn : (rewriteEffect t.toCore entry_id data).isInsert = false := by
      unfold rewriteEffect
      split_ifs <;> rfl
    rw [hn, Bool.and_false]
    exact updateVia_marks ho hrd
  | insert hfr hlk h =>
    have hto := insertVia_told (t := t) (ho.mem_free.mp hfr).1 h rfl
    rw [Bool.not_not] at hto
    rw [Effect.isInsert, Bool.and_true]
    exact hto
  | unlink =>
    obtain ⟨hwr, hno⟩ := deleteEffect_spec t.toCore _
    exact .of_flags hwr hno fun j _ => congrFun (Prod.mk.inj deleteVia_hardware).2 j
  | @remove i entry_id old =>
    exact fun j _ => congrFun (Prod.mk.inj (delete_hardware env
      (dbTableFreeEntryIndex env t entry_id (some i)) entry_id old (rfl : _ = t.hardware))).2 j

theorem LocalOp.run_marks (op : LocalOp σ.entry_size) (ho : Occupancy t.toCore)
    (h : op.run env t = .ok (t', r)) :
    Marks t false (op.keepsFlag (op.effect env t)) t' (op.effect env t) :=
  (op.run_leaf h).marks ho

end

/-! ## The entries of a message -/

def SyncOp.keepsFlag {n : ℕ} (op : SyncOp) : Effect n → Bool
  | .update _ _ => op != .itemUpdate
  | .none | .insert _ _ | .delete _ => false

section

variable {env : Env} {t t' : Table σ} {entry_id : ℕ} {op_ret r : ℤ} {written : Option σ.Data}
  {data : Except Fault σ.Data}

theorem recvUpdate_told {data predata : σ.Data} {clear : Bool} (ho : Occupancy t.toCore)
    (hget : dbTableGetEntry t.toCore entry_id = some predata)
    (h : recvUpdate env t entry_id data predata clear = .next t' r written) :
    Told t [⟨σ.handle_update, .handleUpdate (Bytes.splice σ.sync_size data predata) predata⟩,
        ⟨σ.app_handle_update, .appHandleUpdate (Bytes.splice σ.sync_size data predata) predata⟩]
      (!clear) entry_id t' := by
  cases h
  generalize Bytes.splice σ.sync_size data predata = d
  obtain ⟨hc, hf⟩ := Prod.mk.inj (updateEntry_hardware env t entry_id d none false)
  have hn := callHandler_tell (dbTableUpdateEntry env t entry_id d none false).1 σ.handle_update
    (.handleUpdate d predata) 0
  rw [hc] at hn
  exact .of_mark clear (ho.lt_of_get hget)
    (callHandler_tell_after σ.app_handle_update (.appHandleUpdate d predata) hn)
    (by rw [callHandler_flags, callHandler_flags, hf])

theorem recvInsert_told {data : σ.Data} {t₁ : Table σ} (hlt : entry_id < σ.entry_num)
    (h : recvInsert env t₁ entry_id data = .ok (.next t' r written))
    (hsm : t₁.hardware = t.hardware) :
    Told t [⟨σ.handle_insert, .handleInsert data⟩,
      ⟨σ.app_handle_update, .appHandleUpdate data data⟩] false entry_id t' := by
  obtain ⟨t₂, hi, ht'⟩ := bind_eq_ok.mp h
  cases ht'
  obtain ⟨hc, hf⟩ := Prod.mk.inj ((insertEntry_hardware hi).trans hsm)
  have hn := callHandler_tell t₂ σ.handle_insert (.handleInsert data) 0
  rw [hc] at hn
  exact .of_mark true hlt
    (callHandler_tell_after σ.app_handle_update (.appHandleUpdate data data) hn)
    (by rw [callHandler_flags, callHandler_flags, hf])

theorem callDeleteHandler_flags {handler : Option (Handler σ.entry_size)}
    {call : σ.Data → HandlerCall σ.entry_size} {p : Table σ × ℤ}
    (h : callDeleteHandler t handler call data op_ret = .ok p) : p.1.flags = t.flags := by
  cases handler with
  | none => rw [← ok.inj h]
  | some f =>
    obtain ⟨d, -, hp⟩ := bind_eq_ok.mp h
    rw [← ok.inj hp, callHandler_flags]

theorem recvDelete_flags {w : Option σ.Data}
    (h : recvDelete env t entry_id data w = .ok (.next t' r written)) {j : ℕ} (hj : j ≠ entry_id) :
    t'.flags .hwSwSynced j = t.flags .hwSwSynced j := by
  obtain ⟨p, hp, h⟩ := bind_eq_ok.mp h
  obtain ⟨q, hq, h⟩ := bind_eq_ok.mp h
  cases h
  obtain ⟨-, hf⟩ := Prod.mk.inj (deleteEntry_hardware env (dbTableFreeEntryIndex env
    (dbTableSyncedEntry q.1 entry_id .hwSwSynced) entry_id none) entry_id false)
  have hma : (dbTableSyncedEntry q.1 entry_id .hwSwSynced).flags .hwSwSynced j =
      q.1.flags .hwSwSynced j := markEntry_of_ne q.1 0 true hj
  rw [hf]
  exact hma.trans (by rw [callDeleteHandler_flags hq, callDeleteHandler_flags hp])

theorem RecvEnd.marks {op : SyncOp} {eff : Effect σ.entry_size}
    (h : RecvEnd env t op entry_id eff t') (ho : Occupancy t.toCore) :
    Marks t true (op.keepsFlag eff) t' eff := by
  cases h with
  | skip => exact .skip
  | insert hfr h => exact recvInsert_told (ho.mem_free.mp hfr).1 h rfl
  | update hget h =>
    rw [SyncOp.keepsFlag, Marks, Effect.notices, Effect.appNotices, hget]
    exact recvUpdate_told ho hget h
  | delete h =>
    obtain ⟨hwr, hno⟩ := deleteEffect_spec t.toCore entry_id
    exact .of_flags hwr hno fun j hj => recvDelete_flags h hj

theorem recvEntry_marks {op : SyncOp} (ho : Occupancy t.toCore)
    (h : recvEntry env t op entry_id data op_ret = .ok (.next t' r written)) :
    Marks t true (op.keepsFlag (recvEffect t.toCore op entry_id data)) t'
      (recvEffect t.toCore op entry_id data) :=
  (recvEntry_end h).marks ho

end

end Chanos.Database

import Chanos.Database.Handlers
import Chanos.Database.Indexing
import Chanos.Lib.Trace

/-!
# The flag of the entries that are in the hardware

`DB_HW_SW_SYNCED` is meant to say that the hardware has been programmed with an entry, and
`dbtable_sync_hwsw_timer` programs again every entry without it. `Monitored` adds to a table what
the flags should be, read off the record of handler calls; the flags of a run are right exactly when
each of its writes meets a condition (`hwSwSynced_along`).
-/

namespace Chanos.Database

open Lib List Option Function

variable {σ : Schema}

/-- The answer of the last handler of the hardware, after a call with `before` on record. -/
def Schema.hwAnswer (σ : Schema) (before : List (HandlerCall σ.entry_size)) (ret : Option ℤ) :
    HandlerCall σ.entry_size → Option ℤ
  | .handleInsert entry => (σ.handle_insert.map fun f => f before (.handleInsert entry)).or ret
  | .handleUpdate new_entry old_entry =>
    (σ.handle_update.map fun f => f before (.handleUpdate new_entry old_entry)).or ret
  | .appHandleUpdate _ _ | .handleDelete _ | .appHandleDelete _ => ret

def Schema.lastAnswer (σ : Schema) :
    List (HandlerCall σ.entry_size) → List (HandlerCall σ.entry_size) → Option ℤ → Option ℤ
  | _, [], ret => ret
  | before, call :: new, ret => σ.lastAnswer (before ++ [call]) new (σ.hwAnswer before ret call)

/-- What the flags should be after a step: an entry that is written is in the hardware if a handler
of the hardware was called about its new contents and the last one answered `0`. -/
def observe (programmed : ℕ → Bool) (t t' : Table σ) (eff : Effect σ.entry_size) : ℕ → Bool :=
  match eff.written with
  | some entry_id =>
    update programmed entry_id
      (decide (σ.lastAnswer t.calls (t'.calls.drop t.calls.length) none = some 0))
  | none => programmed

variable (t : Table σ)

def Notice.answer {n : ℕ} (before : List (HandlerCall n)) (hw : Notice n) : Option ℤ :=
  hw.handler.map fun f => f before hw.call

def Effect.hwRet (eff : Effect σ.entry_size) : Option ℤ :=
  (eff.notices σ (dbTableGetEntry t.toCore)).head?.bind (Notice.answer t.calls)

def Effect.lastRet (remote : Bool) (eff : Effect σ.entry_size) : ℤ :=
  (tell (eff.notices σ (dbTableGetEntry t.toCore) ++
    if remote then eff.appNotices σ (dbTableGetEntry t.toCore) else []) (t.calls, 0)).2

/-- The condition on a step under which it leaves the flag of the entry it writes as it should be.
-/
def FlagOk (t : Table σ) (remote keeps : Bool) (eff : Effect σ.entry_size) : Prop :=
  match eff.written with
  | some entry_id =>
    (eff.hwRet t = some 0 →
      eff.lastRet t remote = 0 ∨ (keeps = true ∧ t.flags .hwSwSynced entry_id = true)) ∧
      (eff.hwRet t ≠ some 0 →
        eff.lastRet t remote ≠ 0 ∧ (keeps = true → t.flags .hwSwSynced entry_id = false))
  | none => True

/-! ## One step -/

section

variable {t t' : Table σ} {remote keeps : Bool} {eff : Effect σ.entry_size} {entry_id : ℕ}
  {site : Option (ℕ × ℕ)}

theorem lastAnswer_tell (σ : Schema) (before : List (HandlerCall σ.entry_size)) (remote : Bool)
    (hw app : Notice σ.entry_size)
    (hh : hw.handler.isSome → σ.hwAnswer before none hw.call = hw.answer before)
    (happ : ∀ l ret, σ.hwAnswer l ret app.call = ret) :
    σ.lastAnswer before
        ((tell ([hw] ++ if remote then [app] else []) (before, 0)).1.drop before.length) none =
      hw.answer before := by
  obtain ⟨_ | f, call⟩ := hw <;> obtain ⟨_ | g, call'⟩ := app <;> cases remote
  all_goals simp only [tell, append_nil, Bool.false_eq_true, if_true, if_false,
    drop_length, drop_left, append_assoc, cons_append, nil_append,
    Schema.lastAnswer]
  all_goals first
    | rfl
    | exact happ _ _
    | exact hh rfl
    | exact (happ _ _).trans (hh rfl)

theorem lastAnswer_write (remote : Bool) (hwr : eff.written = some entry_id)
    (hv : eff.Valid σ.entry_num (dbTableGetEntry t.toCore)) :
    σ.lastAnswer t.calls ((tell (eff.notices σ (dbTableGetEntry t.toCore) ++
        if remote then eff.appNotices σ (dbTableGetEntry t.toCore) else [])
          (t.calls, 0)).1.drop t.calls.length) none =
      eff.hwRet t := by
  cases eff with
  | none | delete => cases hwr
  | insert entry_id data =>
    exact lastAnswer_tell σ t.calls remote _ ⟨σ.app_handle_update, .appHandleUpdate data data⟩
      (fun _ => or_none) fun _ _ => rfl
  | update entry_id data =>
    obtain ⟨old, ho⟩ := isSome_iff_exists.mp hv
    rw [Effect.hwRet, Effect.notices, Effect.appNotices, ho]
    exact lastAnswer_tell σ t.calls remote _ ⟨σ.app_handle_update, .appHandleUpdate data old⟩
      (fun _ => or_none) fun _ _ => rfl

theorem flag_right_iff {hw : Option ℤ} {last : ℤ} {flag' flag : Bool}
    (hf : flag' = (decide (last = 0) || keeps && flag)) :
    flag' = decide (hw = some 0) ↔
      (hw = some 0 → last = 0 ∨ (keeps = true ∧ flag = true)) ∧
        (hw ≠ some 0 → last ≠ 0 ∧ (keeps = true → flag = false)) := by
  subst hf
  by_cases h1 : hw = some 0 <;> by_cases h2 : last = 0 <;> cases keeps <;> cases flag <;> simp [h1, h2]

theorem Effect.isSome_apply_written {n : ℕ} {eff : Effect n} (get : ℕ → Option (Bytes n))
    (hwr : eff.written = some entry_id) : (eff.apply get entry_id).isSome = true := by
  cases eff with
  | none | delete => cases hwr
  | insert j data | update j data =>
    obtain rfl : j = entry_id := some.inj hwr
    rw [Effect.apply, update_self]
    rfl

theorem Effect.isSome_of_apply {n : ℕ} {eff : Effect n} {get : ℕ → Option (Bytes n)} {id : ℕ}
    (h : (eff.apply get id).isSome = true) (hwr : eff.written ≠ some id) :
    (get id).isSome = true := by
  cases eff with
  | none => exact h
  | insert j data | update j data | delete j =>
    rw [Effect.apply, update_apply] at h
    split_ifs at h with hid
    · first | exact absurd (congrArg some hid.symm) hwr | cases h
    · exact h

theorem Marks.sound_iff {programmed : ℕ → Bool} (h : Marks t remote keeps t' eff)
    (hs : CoreStep t.toCore site eff t'.toCore) (hocc : Occupancy t.toCore)
    (hp : ∀ id, (t.entries id).exist = true → t.flags .hwSwSynced id = programmed id) :
    (∀ id, (t'.entries id).exist = true →
      t'.flags .hwSwSynced id = observe programmed t t' eff id) ↔ FlagOk t remote keeps eff := by
  have hocc' : Occupancy t'.toCore := hs.occupancy hocc
  simp only [← hocc'.isSome_get, ← hocc.isSome_get, hs.get_eq hocc] at hp ⊢
  unfold observe FlagOk
  unfold Marks at h
  cases hwr : eff.written with rw [hwr] at h
  | none =>
    refine iff_of_true (fun id hid => (h id hid).trans (hp id ?_)) trivial
    exact Effect.isSome_of_apply hid (by rw [hwr]; nofun)
  | some entry_id =>
    have han : σ.lastAnswer t.calls (t'.calls.drop t.calls.length) none = eff.hwRet t := by
      rw [h.calls]
      exact lastAnswer_write remote hwr (hs.effect_valid hocc)
    have hf : t'.flags .hwSwSynced entry_id =
        (decide (eff.lastRet t remote = 0) || keeps && t.flags .hwSwSynced entry_id) := h.flag
    dsimp only
    rw [han, ← flag_right_iff hf]
    constructor
    · intro hal
      have hse := hal entry_id (Effect.isSome_apply_written _ hwr)
      rwa [update_self] at hse
    · intro hse id hid
      rw [update_apply]
      split_ifs with hne
      · rw [hne]
        exact hse
      · refine (h.others id hne).trans (hp id (Effect.isSome_of_apply hid fun hid' => hne ?_))
        exact some.inj (hid'.symm.trans hwr)

end

/-! ## Tables with a record of what is in the hardware -/

/-- A table, with what the flags of its entries should be. -/
structure Monitored (σ : Schema) where
  table : Table σ
  programmed : ℕ → Bool

def Monitored.start (σ : Schema) : Monitored σ := ⟨createDbtable σ, fun _ => false⟩

/-- The flag of every existing entry is what it should be. -/
def Monitored.Sound (m : Monitored σ) : Prop :=
  ∀ id, (m.table.entries id).exist = true → m.table.flags .hwSwSynced id = m.programmed id

/-- What a step writes, whether for a received message, and whether a refusal leaves the flag. -/
structure Write (n : ℕ) where
  remote : Bool
  keeps : Bool
  eff : Effect n

/-- A local operation, or the handling of one entry of a received message. -/
inductive WriteStep (t : Table σ) : Write σ.entry_size → Table σ → Prop
  | localOp {env : Env} {op : LocalOp σ.entry_size} {t' : Table σ} {r : ℤ}
      (h : op.run env t = .ok (t', r)) :
    WriteStep t ⟨false, op.keepsFlag (op.effect env t), op.effect env t⟩ t'
  | received {env : Env} {op : SyncOp} {entry_id : ℕ} {data : Except Fault σ.Data} {op_ret : ℤ}
      {t' : Table σ} {r : ℤ} {written : Option σ.Data}
      (h : recvEntry env t op entry_id data op_ret = .ok (.next t' r written)) :
    WriteStep t ⟨true, op.keepsFlag (recvEffect t.toCore op entry_id data),
      recvEffect t.toCore op entry_id data⟩ t'

def MonitoredStep (m : Monitored σ) (a : Write σ.entry_size) (m' : Monitored σ) : Prop :=
  WriteStep m.table a m'.table ∧ m'.programmed = observe m.programmed m.table m'.table a.eff

theorem WriteStep.marks {t t' : Table σ} {a : Write σ.entry_size} (h : WriteStep t a t')
    (hocc : Occupancy t.toCore) :
    (∃ site, CoreStep t.toCore site a.eff t'.toCore) ∧ Marks t a.remote a.keeps t' a.eff := by
  cases h with
  | localOp h => exact ⟨⟨_, (LocalOp.run_hasEffect _ hocc h).core⟩, LocalOp.run_marks _ hocc h⟩
  | received h => exact ⟨⟨_, (recvEntry_hasEffect hocc h).core⟩, recvEntry_marks hocc h⟩

theorem MonitoredStep.sound_iff {m m' : Monitored σ} {a : Write σ.entry_size}
    (h : MonitoredStep m a m') (hocc : Occupancy m.table.toCore) (hm : m.Sound) :
    Occupancy m'.table.toCore ∧ (m'.Sound ↔ FlagOk m.table a.remote a.keeps a.eff) := by
  obtain ⟨hst, hp⟩ := h
  obtain ⟨⟨site, hs⟩, hmk⟩ := hst.marks hocc
  refine ⟨hs.occupancy hocc, ?_⟩
  rw [← hmk.sound_iff hs hocc hm, ← hp]
  rfl

/-! ## The timer -/

def hwswTimerEntry (i : ℕ) : Table σ :=
  let t :=
    match (t.entries i).real_data with
    | some data =>
      if (t.entries i).exist && !t.flags .hwSwSynced i then
        (callHandler t σ.handle_insert (.handleInsert data) 0).1
      else t
    | none => t
  match (t.entries i).real_data with
  | some data =>
    if (t.entries i).delete_not_synced then
      (callHandler t σ.handle_delete (.handleDelete data) 0).1
    else t
  | none => t

def dbtableSyncHwswTimer : Table σ :=
  (List.range σ.entry_num).foldl hwswTimerEntry t

section

variable (t : Table σ) (hocc : Occupancy t.toCore) (hins : σ.handle_insert.isSome = true)
include hocc hins

theorem hwswTimerEntry_spec (i : ℕ) :
    (hwswTimerEntry t i).toCore = t.toCore ∧ (hwswTimerEntry t i).flags = t.flags ∧
      (hwswTimerEntry t i).calls = t.calls ++
        ((dbTableGetEntry t.toCore i).filter fun _ => !t.flags .hwSwSynced i).toList.map
          .handleInsert := by
  obtain ⟨f, hf⟩ := isSome_iff_exists.mp hins
  have hh := hocc.not_held i
  unfold hwswTimerEntry
  cases hd : (t.entries i).real_data with
  | none => simp [hd, hocc.get_eq]
  | some data =>
    have hex : (t.entries i).exist = true := by rw [← hocc.real_data, hd, isSome_some]
    cases hfl : t.flags .hwSwSynced i with
    | true => simp [hd, hocc.get_eq, hh]
    | false =>
      simp only [hd, hex, hocc.get_eq, hf, callHandler, hh, Bool.and_self, Bool.not_false,
        Bool.false_eq_true, if_true, if_false]
      exact ⟨trivial, trivial, rfl⟩

theorem syncHwswTimer_calls :
    (dbtableSyncHwswTimer t).calls = t.calls ++ (range σ.entry_num).flatMap fun i =>
      ((dbTableGetEntry t.toCore i).filter fun _ => !t.flags .hwSwSynced i).toList.map
        .handleInsert := by
  -- The rounds leave the entries and the flags alone, so each sees those of the start.
  have hlp : ∀ (l : List ℕ) (u : Table σ), u.toCore = t.toCore → u.flags = t.flags →
      (l.foldl hwswTimerEntry u).calls = u.calls ++ l.flatMap fun i =>
        ((dbTableGetEntry t.toCore i).filter fun _ => !t.flags .hwSwSynced i).toList.map
          .handleInsert := by
    intro l
    induction l with
    | nil => exact fun u _ _ => (append_nil _).symm
    | cons i l ih =>
      intro u hco hf
      obtain ⟨h1, h2, h3⟩ := hwswTimerEntry_spec u (hco ▸ hocc) hins i
      rw [foldl_cons, ih _ (h1.trans hco) (h2.trans hf), h3, flatMap_cons, append_assoc, hco, hf]
  exact hlp _ t rfl rfl

end

def RetriesFailed (programmed : ℕ → Bool) : Prop :=
  (dbtableSyncHwswTimer t).calls = t.calls ++ (List.range σ.entry_num).flatMap fun i =>
    ((dbTableGetEntry t.toCore i).filter fun _ => !programmed i).toList.map .handleInsert

theorem retriesFailed_of_flags {t : Table σ} {programmed : ℕ → Bool} (hocc : Occupancy t.toCore)
    (hins : σ.handle_insert.isSome = true)
    (h : ∀ id, (t.entries id).exist = true → t.flags .hwSwSynced id = programmed id) :
    RetriesFailed t programmed := by
  rw [RetriesFailed, syncHwswTimer_calls t hocc hins]
  congr 2
  funext i
  cases hget : dbTableGetEntry t.toCore i with
  | none => rfl
  | some data => rw [h i (hocc.exist_of_get hget)]

/-- The flags of the entries are right, and the timer programs again exactly the entries that are
not in the hardware. -/
def Monitored.Right (m : Monitored σ) : Prop :=
  m.Sound ∧ (σ.handle_insert.isSome = true → RetriesFailed m.table m.programmed)

/-- In a run of a table, an existing entry has the flag exactly when a handler of the hardware was
called about its contents and the last one answered `0`, and the timer programs again exactly the
other entries, after every step if and only if every step meets the condition. -/
theorem hwSwSynced_along {l : List (Write σ.entry_size × Monitored σ)}
    (hrun : Along MonitoredStep (.start σ) l) :
    Along (fun _ _ m' => m'.Right) (.start σ) l ↔
      Along (fun m a _ => FlagOk m.table a.remote a.keeps a.eff) (.start σ) l := by
  refine along_iff_of_invariant
    (fun m a m' hstep (hm : Occupancy m.table.toCore ∧ m.Sound) => ?_) hrun
    ⟨occupancy_create σ, fun id hid => absurd hid Bool.false_ne_true⟩
  obtain ⟨hocc', hiff⟩ := hstep.sound_iff hm.1 hm.2
  have hright : m'.Right ↔ m'.Sound :=
    and_iff_left_of_imp fun hm' hinsert => retriesFailed_of_flags hocc' hinsert hm'
  exact ⟨hright.trans hiff, fun hok => ⟨hocc', hiff.mpr hok⟩⟩

def failingKeys : Schema :=
  { twoKeys with
    handle_insert := some fun calls _ => if calls.length = 0 then 0 else 1
    handle_update := some fun calls _ => if calls.length = 0 then 0 else 1 }

/-- The step of a local operation. -/
def Monitored.next (m : Monitored failingKeys) (op : LocalOp failingKeys.entry_size) :
    Write failingKeys.entry_size × Monitored failingKeys :=
  let eff := op.effect quietEnv m.table
  let t' := op.after quietEnv m.table
  (⟨false, op.keepsFlag eff, eff⟩, ⟨t', observe m.programmed m.table t' eff⟩)

theorem Monitored.next_step {m : Monitored failingKeys} {op : LocalOp failingKeys.entry_size}
    {r : ℤ} (h : op.run quietEnv m.table = .ok (op.after quietEnv m.table, r)) :
    MonitoredStep m (m.next op).1 (m.next op).2 := ⟨.localOp h, rfl⟩

def accepted := (Monitored.start failingKeys).next (.hashInsert 0 (twoBytes 1 7))

def halfProgrammed := accepted.2.next (.hashInsert 0 (twoBytes 2 8))

def emptied := accepted.2.next (.hashDelete 0 (twoBytes 1 7))

def refused := emptied.2.next (.hashInsert 0 (twoBytes 2 8))

/-- Of two insertions the hardware accepts the first and refuses the second: the timer tries the
second one again. -/
theorem hwSwSynced_along_insert :
    Along MonitoredStep (.start failingKeys) [accepted, halfProgrammed] ∧
      halfProgrammed.2.table.flags .hwSwSynced 0 = true ∧
      halfProgrammed.2.table.flags .hwSwSynced 1 = false ∧
      (dbtableSyncHwswTimer halfProgrammed.2.table).calls =
        halfProgrammed.2.table.calls ++ [.handleInsert (twoBytes 2 8)] := by
  have hrun : Along MonitoredStep (.start failingKeys) [accepted, halfProgrammed] :=
    ⟨Monitored.next_step (r := 0) rfl, Monitored.next_step (r := 0) rfl, trivial⟩
  obtain ⟨-, ⟨hflags, hretries⟩, -⟩ := (hwSwSynced_along hrun).mpr
    ⟨⟨fun _ => .inl rfl, absurd rfl⟩,
      ⟨fun h => absurd h (by decide), fun _ => ⟨by decide, fun _ => rfl⟩⟩, trivial⟩
  exact ⟨hrun, hflags 0 rfl, hflags 1 rfl, hretries rfl⟩

/-- An insertion that the hardware accepts, the deletion of the entry and another insertion under
the same id, which the hardware refuses, leave the flag set: the new entry is not in the hardware,
and the timer does not try it again. -/
theorem hwSwSynced_stale :
    Along MonitoredStep (.start failingKeys) [accepted, emptied, refused] ∧
      (refused.2.table.entries 0).exist = true ∧ refused.2.programmed 0 = false ∧
      refused.2.table.flags .hwSwSynced 0 = true ∧
      (dbtableSyncHwswTimer refused.2.table).calls = refused.2.table.calls := by
  refine ⟨⟨Monitored.next_step (r := 0) ?_, Monitored.next_step (r := 0) ?_,
    Monitored.next_step (r := 0) ?_, trivial⟩, ?_, ?_, ?_, ?_⟩
  all_goals rfl

end Chanos.Database

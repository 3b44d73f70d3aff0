import Chanos.Database.Replication

/-!
# Sending to the slots

`dbtable_app_sync` sends a message to one slot or to all that are connected. The header is converted
in the buffer of the caller before each `send`, so on a little-endian host every other slot gets a
header in host order (`dbtableAppSync_iff`).
-/

namespace Chanos.Database

open Lib List SyncHeader

variable {σ : Schema}

structure AppSync where
  endian : Endian
  data_sock : List ℤ
  send : ℕ → ℤ
  app_log : Bool

open AppSync

structure AppSyncState where
  header : SyncHeader
  sent : List (ℕ × List UInt8)
  op_ret : ℤ

namespace AppSync

def sendTo (a : AppSync) (payload : List UInt8) (s : AppSyncState) (i : ℕ) : AppSyncState :=
  let header := s.header.npdDbtableHeaderHton a.endian
  { header := header
    sent := s.sent ++ [(i, (header.encode a.endian).toList ++ payload)]
    op_ret := a.send i }

def dbtableAppSync (a : AppSync) (call : SyncCall) :
    Except Fault (List (ℕ × List UInt8) × ℤ) :=
  let start : AppSyncState := ⟨call.msg.header, [], 0⟩
  if call.slot_index = -1 then
    let s := (List.range a.data_sock.length).foldl
      (fun s i => if a.data_sock.getD i (-1) ≠ -1 then a.sendTo call.msg.payload s i else s) start
    .ok (s.sent, s.op_ret)
  else if call.slot_index < 0 then .error .outOfBounds
  else
    match a.data_sock[call.slot_index.toNat]? with
    | none => .error .outOfBounds
    | some sock =>
      if sock ≠ -1 then
        let s := a.sendTo call.msg.payload start call.slot_index.toNat
        .ok (s.sent, s.op_ret)
      -- The error is logged without looking whether there is a log.
      else if a.app_log then .ok ([], 0)
      else .error .nullPointer

def recipients (a : AppSync) (slot_index : ℤ) : List ℕ :=
  (if slot_index = -1 then List.range a.data_sock.length else [slot_index.toNat]).filter
    fun i => a.data_sock.getD i (-1) ≠ -1

def hook (a : AppSync) (call : SyncCall) : ℤ :=
  match a.dbtableAppSync call with
  | .ok (_, r) => r
  | .error _ => 0

def delivered (a : AppSync) (payload : List UInt8) : List ℕ → SyncHeader → List (ℕ × List UInt8)
  | [], _ => []
  | i :: slots, header =>
    let header := header.npdDbtableHeaderHton a.endian
    (i, (header.encode a.endian).toList ++ payload) :: delivered a payload slots header

section

variable (a : AppSync) (payload : List UInt8)

theorem map_fst_delivered (slots : List ℕ) (header : SyncHeader) :
    (a.delivered payload slots header).map Prod.fst = slots := by
  induction slots generalizing header with
  | nil => rfl
  | cons i slots ih => rw [delivered, map_cons, ih]

theorem foldl_sendTo (slots : List ℕ) (s : AppSyncState) :
    (slots.foldl (a.sendTo payload) s).sent = s.sent ++ a.delivered payload slots s.header ∧
      (slots.foldl (a.sendTo payload) s).op_ret = (slots.getLast?.map a.send).getD s.op_ret := by
  induction slots generalizing s with
  | nil => exact ⟨(append_nil _).symm, rfl⟩
  | cons i slots ih =>
    obtain ⟨hse, hr⟩ := ih (a.sendTo payload s i)
    rw [foldl_cons, hse, hr]
    refine ⟨append_assoc _ _ _, ?_⟩
    cases slots with
    | nil => rfl
    | cons j slots => rfl

theorem appSync_spec {call : SyncCall} {sent : List (ℕ × List UInt8)} {r : ℤ}
    (h : a.dbtableAppSync call = .ok (sent, r)) :
    sent = a.delivered call.msg.payload (a.recipients call.slot_index) call.msg.header ∧
      r = ((a.recipients call.slot_index).getLast?.map a.send).getD 0 := by
  unfold dbtableAppSync at h
  unfold recipients
  by_cases ha : call.slot_index = -1
  · -- The loop skips the slots that are not connected.
    rw [if_pos ha] at h ⊢
    obtain ⟨hse, hre⟩ := a.foldl_sendTo call.msg.payload
      ((range a.data_sock.length).filter fun i => a.data_sock.getD i (-1) ≠ -1)
      ⟨call.msg.header, [], 0⟩
    rw [foldl_filter] at hse hre
    simp only [decide_eq_true_eq] at hse hre
    cases h
    exact ⟨hse, hre⟩
  · rw [if_neg ha] at h ⊢
    split at h
    · simp at h
    cases hso : a.data_sock[call.slot_index.toNat]? with
    | none =>
      rw [hso] at h
      simp at h
    | some sock =>
      have hgetD : a.data_sock.getD call.slot_index.toNat (-1) = sock := by
        rw [getD_eq_getElem?_getD, hso, Option.getD_some]
      rw [hso] at h
      dsimp only at h
      by_cases hc : sock ≠ -1
      · rw [if_pos hc] at h
        rw [filter_singleton, hgetD, decide_eq_true hc]
        cases h
        exact ⟨rfl, rfl⟩
      · rw [if_neg hc] at h
        split_ifs at h with hlo
        rw [filter_singleton, hgetD, decide_eq_false hc]
        cases h
        exact ⟨rfl, rfl⟩

end

/-! ## What arrives -/

def receivedHeader (e : Endian) (bytes : List UInt8) : SyncHeader :=
  (SyncHeader.decode e (Bytes.ofList headerSize (bytes.take headerSize))).npdDbtableHeaderNtoh e

theorem receivedHeader_append (e : Endian) (b : Bytes headerSize) (payload : List UInt8) :
    receivedHeader e (b.toList ++ payload) = (decode e b).npdDbtableHeaderNtoh e := by
  rw [receivedHeader, take_left' b.toList_length, Bytes.ofList_toList]

theorem receivedHeader_little (e : Endian) {header : SyncHeader}
    (ht : header.type = syncTypeEntry) (payload : List UInt8) :
    receivedHeader e ((header.encode .little).toList ++ payload) ≠ header := by
  intro h
  have hrd := congrArg type h
  rw [receivedHeader_append, decode_encode'] at hrd
  simp only [npdDbtableHeaderNtoh, npdDbtableHeaderHton, ht] at hrd
  cases e with
  | little | big => cases hrd

theorem delivered_iff (a : AppSync) (receiver : ℕ → Endian) (payload : List UInt8)
    (slots : List ℕ) {header : SyncHeader} (ht : header.type = syncTypeEntry) :
    (∀ p ∈ a.delivered payload slots header, receivedHeader (receiver p.1) p.2 = header) ↔
      a.endian = .big ∨ slots.length ≤ 1 := by
  -- The first slot gets a header in network order.
  have hf : ∀ e, receivedHeader e
      (((header.npdDbtableHeaderHton a.endian).encode a.endian).toList ++ payload) = header := by
    intro e
    rw [receivedHeader_append, encode_hton, decode_wire]
  cases he : a.endian with
  | big =>
    -- On a big-endian host the header stays as it is.
    have hton : header.npdDbtableHeaderHton a.endian = header := by
      rw [he]
      rfl
    have ha : ∀ p ∈ a.delivered payload slots header,
        receivedHeader (receiver p.1) p.2 = header := by
      induction slots with
      | nil => exact fun p hp => absurd hp not_mem_nil
      | cons i slots ih =>
        intro p hp
        rw [delivered] at hp
        rcases mem_cons.mp hp with rfl | hp
        · exact hf _
        · rw [hton] at hp
          exact ih p hp
    exact iff_of_true ha (.inl rfl)
  | little =>
    rw [or_iff_right (by decide)]
    cases slots with
    | nil => exact ⟨fun _ => Nat.zero_le _, fun _ p hp => absurd hp not_mem_nil⟩
    | cons i slots =>
      cases slots with
      | nil =>
        refine ⟨fun _ => le_rfl, fun _ p hp => ?_⟩
        obtain rfl := mem_singleton.mp hp
        exact hf _
      | cons j slots =>
        refine ⟨fun h => ?_, nofun⟩
        -- The second slot gets the header as it lies in the memory of the host.
        have hsn := h (j, (header.encode .little).toList ++ payload) (by
          rw [delivered, delivered, dbtableHeaderHton_hton, he]
          exact mem_cons_of_mem _ mem_cons_self)
        exact absurd hsn (receivedHeader_little _ ht payload)

end AppSync

/-! ## What is marked -/

theorem foldl_syncedEntry_flags (l : List ℕ) (f : ℕ → ℕ) (flag : EntryFlag) (t : Table σ)
    {id : ℕ} (hlt : id < σ.entry_num) :
    (l.foldl (fun t i => dbTableSyncedEntry t (f i) flag) t).flags flag id =
      (t.flags flag id || l.any fun i => f i == id) := by
  induction l generalizing t with
  | nil => simp
  | cons i l ih =>
    have ho : (dbTableSyncedEntry t (f i) flag).flags flag id = (t.flags flag id || f i == id) := by
      unfold dbTableSyncedEntry
      by_cases hid : f i = id
      · rw [if_neg (by omega)]
        simp [hid]
      · split_ifs
        · simp [hid]
        · simp [hid, Ne.symm hid]
    rw [foldl_cons, ih, ho, any_cons, Bool.or_assoc]

theorem syncData_flags {env : Env} {db_sync : SyncCall → ℤ}
    (hh : env.platform_db_sync = some db_sync) (t : Table σ) (op : SyncOp) (start_id num : ℕ)
    (slot_index : ℤ) {id : ℕ} (hlt : id < σ.entry_num) (hge : start_id ≤ id)
    (hid : id < start_id + num) (hf : t.flags .masterSlaveSynced id = false) :
    (dbtableSyncData env t op start_id num slot_index).flags .masterSlaveSynced id = true ↔
      db_sync ⟨syncMsg t.toCore op start_id num, σ.sync_mode, slot_index⟩ = 0 := by
  unfold dbtableSyncData
  rw [hh]
  dsimp only
  split_ifs with hr
  · have ha : ((range num).any fun i => start_id + i == id) = true :=
      any_eq_true.mpr ⟨id - start_id, mem_range.mpr (by omega), beq_iff_eq.mpr (by omega)⟩
    rw [foldl_syncedEntry_flags _ _ _ _ hlt, ha, Bool.or_true]
    exact iff_of_true rfl hr
  · exact iff_of_false (fun h => Bool.false_ne_true (hf.symm.trans h)) hr

/-- A message is sent by `dbtable_app_sync`. Each slot that it is for gets it once with the header
that was built, and its entries are marked exactly when each `send` has sent all of it, exactly when
the host is big-endian or the message is for one slot at most, and when it is for none or some
`send` has not sent all of it. -/
theorem dbtableAppSync_iff (a : AppSync) (receiver : ℕ → Endian) {env : Env}
    (hhook : env.platform_db_sync = some a.hook) (t : Table σ) (op : SyncOp)
    (start_id num : ℕ) (slot_index : ℤ) {sent : List (ℕ × List UInt8)} {r : ℤ}
    (hcall : a.dbtableAppSync ⟨syncMsg t.toCore op start_id num, σ.sync_mode, slot_index⟩ =
      .ok (sent, r))
    (hsend : ∀ i ∈ a.recipients slot_index, a.send i ≠ 0) {id : ℕ} (hlt : id < σ.entry_num)
    (hge : start_id ≤ id) (hid : id < start_id + num)
    (hflag : t.flags .masterSlaveSynced id = false) :
    (sent.map Prod.fst = a.recipients slot_index ∧
        (∀ p ∈ sent, receivedHeader (receiver p.1) p.2 =
          (syncMsg t.toCore op start_id num).header) ∧
        ((dbtableSyncData env t op start_id num slot_index).flags .masterSlaveSynced id = true ↔
          ∀ i ∈ a.recipients slot_index,
            a.send i = (syncMsg t.toCore op start_id num).wire.length)) ↔
      (a.endian = .big ∨ (a.recipients slot_index).length ≤ 1) ∧
        (a.recipients slot_index = [] ∨
          ∃ i ∈ a.recipients slot_index,
            a.send i ≠ (syncMsg t.toCore op start_id num).wire.length) := by
  obtain ⟨hsent, hret⟩ := a.appSync_spec hcall
  have hr : a.hook ⟨syncMsg t.toCore op start_id num, σ.sync_mode, slot_index⟩ = r := by
    rw [hook, hcall]
  have hslots : sent.map Prod.fst = a.recipients slot_index := by
    rw [hsent, map_fst_delivered]
  have hheader := a.delivered_iff receiver (syncMsg t.toCore op start_id num).payload
    (a.recipients slot_index) (rfl : (syncMsg t.toCore op start_id num).header.type = syncTypeEntry)
  rw [syncData_flags hhook t op start_id num slot_index hlt hge hid hflag, hr, hsent,
    hheader, and_iff_right (hsent ▸ hslots)]
  refine and_congr_right fun _ => ?_
  -- The value that is returned is `0` only when nothing was sent.
  have hzero : r = 0 ↔ a.recipients slot_index = [] := by
    rw [hret]
    change ((a.recipients slot_index).getLast?.map a.send).getD 0 = 0 ↔ _
    cases hlast : (a.recipients slot_index).getLast? with
    | none => exact iff_of_true rfl (getLast?_eq_none_iff.mp hlast)
    | some i =>
      refine iff_of_false (hsend i (mem_of_getLast? hlast)) fun hnil => ?_
      rw [hnil] at hlast
      simp at hlast
  rw [hzero]
  by_cases hnone : a.recipients slot_index = []
  · rw [hnone]
    simp
  rw [or_iff_right hnone, iff_false_left hnone]
  push Not
  rfl

def unmarked : Table syncedKeys :=
  (LocalOp.hashInsert 0 (twoBytes 1 7) : LocalOp syncedKeys.entry_size).after quietEnv
    (createDbtable syncedKeys)

def failingSlot : AppSync := ⟨.little, [-1, 5], fun _ => -1, true⟩

/-- The message arrives as it was built wherever it arrives, and its entry is not marked. -/
theorem dbtableAppSync_iff_failing :
    ∃ sent r,
      failingSlot.dbtableAppSync ⟨syncMsg unmarked.toCore .itemUpdate 0 1, DB_SYNC_ALL, -1⟩ =
        .ok (sent, r) ∧
      sent.map Prod.fst = [1] ∧
      (∀ p ∈ sent, receivedHeader .big p.2 =
        (syncMsg unmarked.toCore .itemUpdate 0 1).header) ∧
      ((dbtableSyncData { syncEnv with platform_db_sync := some failingSlot.hook } unmarked
          .itemUpdate 0 1 (-1)).flags .masterSlaveSynced 0 = true ↔
        ∀ i ∈ failingSlot.recipients (-1),
          failingSlot.send i = (syncMsg unmarked.toCore .itemUpdate 0 1).wire.length) :=
  ⟨_, _, rfl, (dbtableAppSync_iff failingSlot (fun _ => .big) rfl unmarked .itemUpdate 0 1 (-1) rfl
    (fun _ _ => (by decide : (-1 : ℤ) ≠ 0)) (by decide) le_rfl (by decide) rfl).mpr
      ⟨.inr (by decide), .inr ⟨1, by decide, by decide⟩⟩⟩

def twoSlots : AppSync := ⟨.little, [5, 6], fun _ => 70, true⟩

/-- An update of one entry is sent to both slots in full. The second slot reads another type from
the header than the one that was built, and the entry is not marked. -/
theorem dbtableAppSync_twice :
    ∃ sent r, twoSlots.dbtableAppSync ⟨syncMsg unmarked.toCore .itemUpdate 0 1, DB_SYNC_ALL, -1⟩ =
        .ok (sent, r) ∧
      (∀ i ∈ twoSlots.recipients (-1),
        twoSlots.send i = (syncMsg unmarked.toCore .itemUpdate 0 1).wire.length) ∧
      (sent.map fun p => (p.1, (receivedHeader .little p.2).type)) =
        [(0, 1), (1, 0x01000000)] ∧
      (syncMsg unmarked.toCore .itemUpdate 0 1).header.type = 1 ∧
      (dbtableSyncData { syncEnv with platform_db_sync := some twoSlots.hook } unmarked
          .itemUpdate 0 1 (-1)).flags .masterSlaveSynced 0 = false :=
  ⟨_, _, rfl, by decide, by decide, rfl, rfl⟩

end Chanos.Database

import Chanos.Database.Resync

/-!
# The messages of a run of entries

`dbtable_sync_data_insert` cuts a run of consecutive entries into messages of at most
`MAX_SEND_SIZE` bytes. `Chunked` says what the messages should be: well formed, within the limit,
not empty, and together the run.
-/

namespace Chanos.Database

open Lib List Nat UInt32

variable {σ : Schema} {start_id num : ℕ}

/-- The messages are well formed and cover the entries of a run, in order. -/
structure Chunked (start_id num : ℕ) (msgs : List SyncMsg) : Prop where
  wellFormed : ∀ m ∈ msgs,
    m.header.total_len.toNat =
        headerSize + m.header.entry_num.toNat * m.header.entry_len.toNat ∧
      m.wire.length = m.header.total_len.toNat
  length_le : ∀ m ∈ msgs, m.wire.length ≤ maxSendSize
  entry_num_pos : ∀ m ∈ msgs, 0 < m.header.entry_num.toNat
  increasing : msgs.Pairwise fun m m' =>
    m.header.start_index.toNat + m.header.entry_num.toNat ≤ m'.header.start_index.toNat
  covers : ∀ id, (∃ m ∈ msgs, m.header.start_index.toNat ≤ id ∧
      id < m.header.start_index.toNat + m.header.entry_num.toNat) ↔
    start_id ≤ id ∧ id < start_id + num

section

variable {start_id num : ℕ}

theorem Schema.mul_entry_size_le (hn : num ≤ σ.sendNum) :
    num * σ.entry_size ≤ maxSendSize - headerSize :=
  calc num * σ.entry_size ≤ σ.sendNum * σ.entry_size := mul_le_mul_right _ hn
    _ ≤ maxSendSize - headerSize := div_mul_le_self _ _

theorem syncMsg_header (c : Core σ) (op : SyncOp) (hn : num ≤ σ.sendNum)
    (hid : start_id + num < 2 ^ 32) :
    let h := (syncMsg c op start_id num).header
    h.total_len.toNat = headerSize + num * σ.entry_size ∧ h.entry_len.toNat = σ.entry_size ∧
      h.start_index.toNat = start_id ∧ h.entry_num.toNat = num := by
  have hr : headerSize + num * σ.entry_size < 2 ^ 32 := by
    have hle : num * σ.entry_size ≤ maxSendSize - headerSize := Schema.mul_entry_size_le hn
    unfold maxSendSize headerSize at *
    omega
  refine ⟨?_, toNat_ofNat_of_lt' σ.entry_size_lt, toNat_ofNat_of_lt' ?_,
    toNat_ofNat_of_lt' ?_⟩
  · change (ofNat (headerSize + σ.entry_size * num)).toNat = _
    rw [mul_comm σ.entry_size num]
    exact toNat_ofNat_of_lt' hr
  · exact lt_of_le_of_lt (le_add_right _ _) hid
  · exact lt_of_le_of_lt (le_add_left _ _) hid

theorem length_wire_syncMsg (c : Core σ) (op : SyncOp) (start_id num : ℕ) :
    (syncMsg c op start_id num).wire.length = headerSize + num * σ.entry_size := by
  have hp : (syncMsg c op start_id num).payload.length = num * σ.entry_size := by
    change ((range num).flatMap fun i => (syncEntry c (start_id + i)).toList).length = _
    rw [length_flatMap]
    simp only [List.Vector.toList_length, map_const', length_range, sum_replicate, smul_eq_mul]
  rw [SyncMsg.wire, length_append, List.Vector.toList_length, hp]

end

/-! ## The messages of a run -/

theorem pieces_pairwise (k start_id num : ℕ) :
    (pieces k start_id num).Pairwise fun p p' => p.1 + p.2 ≤ p'.1 := by
  refine pairwise_append.mpr ⟨?_, pairwise_singleton _ _, fun p hp p' hp' => ?_⟩
  · refine pairwise_map.mpr (pairwise_lt_range.imp fun {i j} hij => ?_)
    have hmu : (i + 1) * k ≤ j * k := mul_le_mul_right k hij
    have hsu := Nat.add_one_mul i k
    omega
  · obtain ⟨i, hi, rfl⟩ := mem_map.mp hp
    obtain rfl := mem_singleton.mp hp'
    have hmu : (i + 1) * k ≤ num / k * k := mul_le_mul_right k (mem_range.mp hi)
    have hsu := Nat.add_one_mul i k
    omega

theorem pos_of_mem_pieces {k start_id num : ℕ} (hk : 0 < k) (hn : num % k ≠ 0) {p : ℕ × ℕ}
    (hp : p ∈ pieces k start_id num) : 0 < p.2 := by
  rcases mem_append.mp hp with hp | hp
  · obtain ⟨i, -, rfl⟩ := mem_map.mp hp
    exact hk
  · obtain rfl := mem_singleton.mp hp
    exact pos_of_ne_zero hn

theorem chunked_pieces (c : Core σ) (hf : σ.Fits)
    (hid : start_id + num < 2 ^ 32) (hn : num % σ.sendNum ≠ 0) :
    Chunked start_id num
      ((pieces σ.sendNum start_id num).map fun p => syncMsg c .itemAdd p.1 p.2) := by
  have hk := hf.sendNum_pos
  have hh : ∀ p ∈ pieces σ.sendNum start_id num,
      let h := (syncMsg c .itemAdd p.1 p.2).header
      h.total_len.toNat = headerSize + p.2 * σ.entry_size ∧ h.entry_len.toNat = σ.entry_size ∧
        h.start_index.toNat = p.1 ∧ h.entry_num.toNat = p.2 := by
    intro p hp
    obtain ⟨hle, hen⟩ := le_of_mem_pieces hk hp
    exact syncMsg_header c .itemAdd hle (lt_of_le_of_lt hen hid)
  refine ⟨fun m hm => ?_, fun m hm => ?_, fun m hm => ?_, ?_, fun id => ?_⟩
  · obtain ⟨p, hp, rfl⟩ := mem_map.mp hm
    obtain ⟨ht, hlen, -, he⟩ := hh p hp
    exact ⟨by rw [ht, hlen, he], by rw [ht, length_wire_syncMsg]⟩
  · obtain ⟨p, hp, rfl⟩ := mem_map.mp hm
    have hr : p.2 * σ.entry_size ≤ maxSendSize - headerSize :=
      Schema.mul_entry_size_le (le_of_mem_pieces hk hp).1
    rw [length_wire_syncMsg]
    unfold maxSendSize headerSize at *
    omega
  · obtain ⟨p, hp, rfl⟩ := mem_map.mp hm
    rw [(hh p hp).2.2.2]
    exact pos_of_mem_pieces hk hn hp
  · refine pairwise_map.mpr ((pieces_pairwise _ _ _).imp_of_mem fun {p p'} hp hp' hle => ?_)
    rw [(hh p hp).2.2.1, (hh p hp).2.2.2, (hh p' hp').2.2.1]
    exact hle
  · rw [← covers_pieces hk id, Chanos.Database.covers, any_eq_true]
    constructor
    · rintro ⟨m, hm, hge, hlt⟩
      obtain ⟨p, hp, rfl⟩ := mem_map.mp hm
      rw [(hh p hp).2.2.1] at hge hlt
      rw [(hh p hp).2.2.2] at hlt
      exact ⟨p, hp, by rw [Bool.and_eq_true, decide_eq_true_eq, decide_eq_true_eq]; exact ⟨hge, hlt⟩⟩
    · rintro ⟨p, hp, hin⟩
      rw [Bool.and_eq_true, decide_eq_true_eq, decide_eq_true_eq] at hin
      refine ⟨_, mem_map.mpr ⟨p, hp, rfl⟩, ?_⟩
      rw [(hh p hp).2.2.1, (hh p hp).2.2.2]
      exact hin

theorem not_chunked_of_dvd (c : Core σ) (hn : num % σ.sendNum = 0) :
    ¬ Chunked start_id num
      ((pieces σ.sendNum start_id num).map fun p => syncMsg c .itemAdd p.1 p.2) := by
  intro h
  have hme : syncMsg c .itemAdd (start_id + num / σ.sendNum * σ.sendNum) (num % σ.sendNum) ∈
      (pieces σ.sendNum start_id num).map fun p => syncMsg c .itemAdd p.1 p.2 :=
    mem_map.mpr ⟨_, mem_append_right _ (mem_singleton_self _), rfl⟩
  have hp := h.entry_num_pos _ hme
  have hz : (syncMsg c .itemAdd (start_id + num / σ.sendNum * σ.sendNum)
      (num % σ.sendNum)).header.entry_num = 0 := by
    rw [hn]
    rfl
  rw [hz] at hp
  cases hp

theorem chunked_nil_iff : Chunked start_id num [] ↔ num = 0 := by
  constructor
  · intro h
    by_contra hne
    obtain ⟨m, hm, -⟩ := (h.covers start_id).mpr ⟨le_rfl, by omega⟩
    simp at hm
  · rintro rfl
    exact ⟨by simp, by simp, by simp, .nil, fun id => ⟨by simp, fun ⟨h1, h2⟩ => by omega⟩⟩

theorem Env.calls_eq (env : Env) (slot_index : ℤ) (l : List SyncMsg) :
    env.calls σ slot_index l =
      (if env.platform_db_sync.isSome then l else []).map fun m => ⟨m, σ.sync_mode, slot_index⟩ := by
  unfold Env.calls
  split_ifs <;> rfl

/-- `dbtable_sync_data_insert` returns and sends the right messages about a run of existing entries
exactly when an entry fits a message and, where there is a `platform_db_sync` to send them with, the
length of the run is not a multiple of the number of entries that fit. -/
theorem syncDataInsert_chunked_iff (env : Env) (t : Table σ) (start_id num : ℕ) (slot_index : ℤ)
    (hexist : ∀ i < num, (dbTableGetEntry t.toCore (start_id + i)).isSome = true) :
    (∃ t' msgs, dbtableSyncDataInsert env t start_id num slot_index = .ok t' ∧
      t'.sent = t.sent ++ msgs.map (fun m => ⟨m, σ.sync_mode, slot_index⟩) ∧
      Chunked start_id num msgs) ↔
    (0 < σ.entry_size ∧ σ.entry_size ≤ maxSendSize - headerSize) ∧
      if env.platform_db_sync.isSome then num % ((maxSendSize - headerSize) / σ.entry_size) ≠ 0
      else num = 0 := by
  change _ ↔ σ.Fits ∧ if env.platform_db_sync.isSome then num % σ.sendNum ≠ 0 else num = 0
  by_cases hfits : σ.Fits
  · -- The messages are those of the pieces, or none without a hook.
    obtain ⟨-, -, hsent⟩ :=
      foldl_insertPiece_spec env t slot_index (pieces σ.sendNum start_id num)
    rw [Env.calls_eq] at hsent
    have hmsgs : (∃ t' msgs, dbtableSyncDataInsert env t start_id num slot_index = .ok t' ∧
        t'.sent = t.sent ++ msgs.map (fun m => (⟨m, σ.sync_mode, slot_index⟩ : SyncCall)) ∧
        Chunked start_id num msgs) ↔
        Chunked start_id num (if env.platform_db_sync.isSome then
          (pieces σ.sendNum start_id num).map fun p => syncMsg t.toCore .itemAdd p.1 p.2
          else []) := by
      rw [syncDataInsert_eq _ _ _ _ _ hfits]
      constructor
      · rintro ⟨t', msgs, ht', hsent', h⟩
        cases ht'
        have hmap := append_cancel_left (hsent'.symm.trans hsent)
        have hinj : Function.Injective fun m => (⟨m, σ.sync_mode, slot_index⟩ : SyncCall) :=
          fun m m' hmm => congrArg SyncCall.msg hmm
        rwa [← map_injective_iff.mpr hinj hmap]
      · exact fun h => ⟨_, _, rfl, hsent, h⟩
    rw [hmsgs, and_iff_right hfits]
    split_ifs with hhook
    · by_cases hnum : num % σ.sendNum = 0
      · exact iff_of_false (not_chunked_of_dvd _ hnum) (not_not_intro hnum)
      refine iff_of_true (chunked_pieces _ hfits ?_ hnum) hnum
      -- The run is not empty, and its last entry is one of the table.
      have hpos : 0 < num := pos_of_ne_zero fun h => hnum (by rw [h, zero_mod])
      have hlast := hexist (num - 1) (by omega)
      have hlt : start_id + (num - 1) < σ.entry_num := by
        by_contra hge
        rw [dbTableGetEntry, if_pos (by omega)] at hlast
        simp at hlast
      have hbound := σ.entry_num_lt
      omega
    · exact chunked_nil_iff
  · rw [syncDataInsert_error _ _ _ _ _ hfits]
    exact iff_of_false (fun ⟨_, _, h, _⟩ => absurd h (by simp)) fun h => hfits h.1

/-- A run of one entry that fits a message with room to spare is sent right. -/
theorem syncDataInsert_chunked_iff_one :
    (∀ i < 1, (dbTableGetEntry oneEntry.toCore (0 + i)).isSome = true) ∧
      ∃ t' msgs, dbtableSyncDataInsert syncEnv oneEntry 0 1 (-1) = .ok t' ∧
        t'.sent = oneEntry.sent ++ msgs.map (fun m => ⟨m, twoKeys.sync_mode, -1⟩) ∧
        Chunked 0 1 msgs := by
  have hexist : ∀ i < 1, (dbTableGetEntry oneEntry.toCore (0 + i)).isSome = true := by
    intro i hi
    obtain rfl : i = 0 := by omega
    rfl
  exact ⟨hexist, (syncDataInsert_chunked_iff syncEnv oneEntry 0 1 (-1) hexist).mpr
    ⟨by decide, by decide⟩⟩

def wideTable (n : ℕ) (hn : n < 2 ^ 32) : Schema where
  name := Bytes.zero 31
  entry_num := 1
  entry_size := n
  sync_size := n
  sync_mode := DB_SYNC_ALL
  index_list := [.array]
  entry_num_lt := by decide
  entry_size_lt := hn
  sync_size_le := le_rfl

def oneWide (n : ℕ) (hn : n < 2 ^ 32) : Table (wideTable n hn) :=
  (LocalOp.arrayInsert 0 (Bytes.zero n)).after ⟨false, false, none, fun n _ => Bytes.zero n⟩
    (createDbtable (wideTable n hn))

/-- An entry that fills a message is followed by a message without entries, and for an entry one
byte larger the function divides by zero. -/
theorem syncDataInsert_not_chunked :
    (∃ t' : Table (wideTable 19932 (by decide)),
        dbtableSyncDataInsert syncEnv (oneWide 19932 (by decide)) 0 1 (-1) = .ok t' ∧
        (dbTableGetEntry (oneWide 19932 (by decide)).toCore 0).isSome = true ∧
        ∃ call ∈ t'.sent, call.msg.header.entry_num = 0) ∧
      (dbTableGetEntry (oneWide 19933 (by decide)).toCore 0).isSome = true ∧
        dbtableSyncDataInsert syncEnv (oneWide 19933 (by decide)) 0 1 (-1) = .error .divByZero := by
  have hfits : (wideTable 19932 (by decide)).Fits := ⟨by decide, by decide⟩
  have hbig : ¬ (wideTable 19933 (by decide)).Fits := fun h => absurd h.2 (by decide)
  refine ⟨⟨_, syncDataInsert_eq _ _ _ _ _ hfits, rfl, ?_⟩, rfl,
    syncDataInsert_error _ _ _ _ _ hbig⟩
  obtain ⟨-, -, hsent⟩ := foldl_insertPiece_spec syncEnv (oneWide 19932 (by decide)) (-1)
    (pieces (wideTable 19932 (by decide)).sendNum 0 1)
  have hlast : ((1, 0) : ℕ × ℕ) ∈ pieces (wideTable 19932 (by decide)).sendNum 0 1 := by decide
  rw [hsent]
  refine ⟨⟨syncMsg (oneWide 19932 (by decide)).toCore .itemAdd 1 0, DB_SYNC_ALL, -1⟩,
    mem_append_right _ ?_, rfl⟩
  exact mem_map.mpr ⟨_, mem_map.mpr ⟨(1, 0), hlast, rfl⟩, rfl⟩

end Chanos.Database

import Chanos.Database.Indexing
import Chanos.Service.Request

/-!
# Which requests are safe

`PacketSafe` says what it asks of the packet and of the database that
`osalDbLocalServiceReadHandler` returns without a fault, and `readHandler_noFault_iff` that it asks
no more. The proof follows the handler from its end.
-/

namespace Chanos.Service

open Lib Database List Except RequestType Nat CString

def NoFault {α : Type} (x : Except Fault α) : Prop := ∃ a, x = .ok a

section

variable {α β : Type}

theorem noFault_ok (a : α) : NoFault (.ok a : Except Fault α) := ⟨a, rfl⟩

theorem not_noFault_error (f : Fault) : ¬NoFault (.error f : Except Fault α) := nofun

theorem noFault_bind {x : Except Fault α} {f : α → Except Fault β} :
    NoFault (x >>= f) ↔ ∃ a, x = .ok a ∧ NoFault (f a) := by
  constructor
  · rintro ⟨b, hb⟩
    obtain ⟨a, ha, hf⟩ := bind_eq_ok.mp hb
    exact ⟨a, ha, b, hf⟩
  · rintro ⟨a, ha, b, hb⟩
    exact ⟨b, bind_eq_ok.mpr ⟨a, ha, hb⟩⟩

theorem noFault_bind_ok {x : Except Fault α} {f : α → β} :
    NoFault (x >>= fun a => .ok (f a)) ↔ NoFault x := by
  rw [noFault_bind]
  exact exists_congr fun a => and_iff_left (noFault_ok _)

theorem orFault_eq_ok {x : Option α} {a : α} : orFault x = .ok a ↔ x = some a := by
  cases x with
  | none => exact ⟨nofun, nofun⟩
  | some b => exact ⟨fun h => congrArg some (ok.inj h), fun h => congrArg _ (Option.some.inj h)⟩

theorem noFault_orFault_bind {x : Option α} {f : α → Except Fault β} :
    NoFault (orFault x >>= f) ↔ ∃ a, x = some a ∧ NoFault (f a) := by
  simp only [noFault_bind, orFault_eq_ok]

theorem noFault_unless_bind {c : Prop} [Decidable c] {a : α} {x : Except Fault α}
    {f : α → Except Fault β} (hf : NoFault (f a)) :
    NoFault ((if c then .ok a else x) >>= f) ↔ (¬c → NoFault (x >>= f)) := by
  split_ifs with hc
  · exact iff_of_true hf (absurd hc)
  · rw [imp_iff_right hc]

theorem exists_load_iff {mem : List UInt8} {off : ℤ} {n : ℕ} :
    (∃ d, load mem off n = some d) ↔ n = 0 ∨ 0 ≤ off ∧ off + n ≤ mem.length := by
  unfold load
  split_ifs with h
  · exact iff_of_true ⟨_, rfl⟩ h
  · exact iff_of_false nofun h

theorem exists_wordAt_iff {e : Endian} {buf : List UInt8} {off : ℕ} :
    (∃ x, wordAt e buf off = some x) ↔ off + 4 ≤ buf.length := by
  have hlo : (∃ d, load buf off 4 = some d) ↔ off + 4 ≤ buf.length := by
    rw [exists_load_iff]
    omega
  rw [← hlo]
  unfold wordAt
  constructor
  · rintro ⟨x, hx⟩
    obtain ⟨d, hd, -⟩ := Option.map_eq_some_iff.mp hx
    exact ⟨d, hd⟩
  · rintro ⟨d, hd⟩
    exact ⟨_, by rw [hd, Option.map_some]⟩

end

def InsertSafe {σ : Schema} (env : Env) (t : Table σ) (i : ℕ) (data : σ.Data) : Prop :=
  σ.Fits ∨ env.sends σ true = false ∨
    ¬∃ h b entry_id c, σ.hashIndex i = some h ∧ h.bucket data = some b ∧
      insertFound env t i data h b none = none ∧
      osalTableEntryIdAlloc t.toCore = some (entry_id, c) ∧ entry_id < σ.entry_num

def OpSafe (env : Env) (f : Found) (mem : List UInt8) : RequestType → Prop
  | .insert | .update =>
    ∃ i data, f.ref = .own i ∧ load mem 0 f.table.schema.entry_size = some data ∧
      InsertSafe env f.table.table i data
  | .delete | .search =>
    (∃ i, f.ref = .own i) ∧ f.table.schema.entry_size ≤ mem.length ∧
      responsePacketSize + f.table.schema.entry_size ≤ maxDbPacketLen
  | .traver =>
    responsePacketSize + (existingEntries f.table.table).length * f.table.schema.entry_size ≤
      maxDbPacketLen
  | _ => True

def RequestSafe (env : Env) (s : ServiceDb) (db_name table_name index_name : CString) (type : UInt32)
    (mem : List UInt8) : Prop :=
  table_name.format.isSome = true ∧ (RequestType.ofCode type ≠ .indexCreate →
    ∀ f, dbtableIndexGetByName s db_name table_name index_name = .ok f → f.ref.indexType = .hash →
      OpSafe env f mem (RequestType.ofCode type))

def NamesEnd (buf : List UInt8) : Prop :=
  ∃ db_name, cstringAt buf 0 = some db_name ∧ (db_name.length < maxNameLen →
    ∃ table_name, cstringAt buf 31 = some table_name ∧ (table_name.length < maxNameLen →
      ∃ index_name, cstringAt buf 76 = some index_name))

structure PacketSafe (e : Endian) (env : Env) (debug : Bool) (s : ServiceDb) (buf : List UInt8) :
    Prop where
  header : requestPacketSize ≤ buf.length
  dump : debug = true → (cstringAt buf 0).isSome = true ∧ (cstringAt buf 31).isSome = true ∧
    (cstringAt buf 76).isSome = true ∧
    ∀ size, wordAt e buf 108 = some size →
      (signed32 size).toNat = 0 ∨ requestPacketSize + (signed32 size).toNat ≤ buf.length
  names : NamesEnd buf
  request : ∀ db_name table_name index_name type, cstringAt buf 0 = some db_name →
    cstringAt buf 31 = some table_name → cstringAt buf 76 = some index_name →
    wordAt e buf 72 = some type → (0 < db_name.length ∧ db_name.length < maxNameLen) →
    (0 < table_name.length ∧ table_name.length < maxNameLen) →
    (0 < index_name.length ∧ index_name.length < maxNameLen) →
    RequestSafe env s db_name table_name index_name type (buf.drop requestPacketSize)

/-! ### Operations -/

section

variable {σ : Schema} {env : Env} {t : Table σ} {ref : IndexRef σ} {mem : List UInt8}

theorem insertEntry_noFault_iff {entry_id : ℕ} {data : σ.Data} {orig_index : Option ℕ}
    {local_flag : Bool} :
    NoFault (dbTableInsertEntry env t entry_id data orig_index local_flag) ↔
      σ.entry_num ≤ entry_id ∨ σ.Fits ∨ env.sends σ local_flag = false := by
  constructor
  · rintro ⟨t', h⟩
    by_contra hn
    obtain ⟨hid, hf, hse⟩ : ¬σ.entry_num ≤ entry_id ∧ ¬σ.Fits ∧
        ¬env.sends σ local_flag = false := by
      simpa only [not_or] using hn
    rw [Bool.not_eq_false] at hse
    unfold dbTableInsertEntry at h
    rw [if_neg hid] at h
    rw [if_pos hse, syncDataInsert_error _ _ _ _ _ hf] at h
    simp at h
  · rintro (hid | h)
    · exact ⟨t, if_pos hid⟩
    · exact insertEntry_ok t entry_id data orig_index h

theorem hashInsert_noFault_iff {i : ℕ} {data : σ.Data} :
    NoFault (dbtableHashInsert env t i data) ↔ InsertSafe env t i data := by
  unfold dbtableHashInsert dbtableHashInsertSeq InsertSafe
  cases hix : σ.hashIndex i with
  | none => simp [noFault_ok]
  | some h =>
    dsimp only
    cases hb : h.bucket data with
    | none => simp [noFault_ok, hb]
    | some b =>
      dsimp only [chainInsert]
      cases hf : insertFound env t i data h b none with
      | some p => simp [noFault_ok, hb, hf]
      | none =>
        cases halc : osalTableEntryIdAlloc t.toCore with
        | none => simp [noFault_ok]
        | some p =>
          obtain ⟨entry_id, c⟩ := p
          -- The only step that can fail stores a new entry.
          refine (noFault_bind_ok.trans (noFault_bind_ok.trans insertEntry_noFault_iff)).trans ?_
          simp [hb, hf]
          tauto

/-- The response of an operation can be built: the entries have the size, and the numbers are in
range. -/
structure Answer.WellFormed (a : Answer σ) : Prop where
  entries : ∀ d ∈ a.entries, d.length = a.entry_size
  entry_size_lt : a.entry_size < 2 ^ 32
  length_lt : a.entries.length < 2 ^ 31

structure Answers (run : Except Fault (Answer σ)) (P : Prop) (bytes : ℕ) : Prop where
  noFault : NoFault run ↔ P
  wellFormed : ∀ a, run = .ok a → a.WellFormed
  bytes : ∀ a, run = .ok a → a.entries.length * a.entry_size = bytes

theorem noFault_asHash_bind {α : Type} {f : ℕ → Except Fault α} :
    NoFault (ref.asHash >>= f) ↔ ∃ i, ref = .own i ∧ NoFault (f i) := by
  cases ref with
  | own j =>
    constructor
    · intro h
      exact ⟨j, rfl, h⟩
    · rintro ⟨_, hj, h⟩
      cases hj
      exact h
  | cmp => exact iff_of_false nofun nofun

theorem requestHashInsert_answers :
    Answers (dbtableRequestHashInsert env t ref mem)
      (∃ i data, ref = .own i ∧ load mem 0 σ.entry_size = some data ∧ InsertSafe env t i data) 0 := by
  have han : ∀ a, dbtableRequestHashInsert env t ref mem = .ok a →
      a.entries = [] ∧ a.entry_size = 0 := by
    intro a ha
    obtain ⟨i, -, ha⟩ := bind_eq_ok.mp ha
    obtain ⟨data, -, ha⟩ := bind_eq_ok.mp ha
    obtain ⟨r, -, ha⟩ := bind_eq_ok.mp ha
    cases ha
    exact ⟨rfl, rfl⟩
  refine ⟨?_, fun a ha => ?_, fun a ha => ?_⟩
  · simp only [dbtableRequestHashInsert, noFault_asHash_bind, requestEntry, noFault_orFault_bind]
    refine exists_congr fun i => ?_
    rw [← exists_and_left]
    refine exists_congr fun data => and_congr_right fun _ => and_congr_right fun _ => ?_
    exact noFault_bind_ok.trans hashInsert_noFault_iff
  · obtain ⟨he, hsz⟩ := han a ha
    refine ⟨fun d hd => ?_, ?_, ?_⟩
    · rw [he] at hd
      exact absurd hd not_mem_nil
    · omega
    · rw [he]
      exact Nat.two_pow_pos 31
  · rw [(han a ha).2, mul_zero]

theorem oneEntry_answers {x : Except Fault (Answer σ)}
    {run : ℕ → σ.Data → Answer σ}
    (hx : x = do
      let i ← ref.asHash
      let data ← requestEntry σ mem
      .ok (run i data))
    (hrun : ∀ i data, ∃ d : σ.Data, (run i data).entries = [d.toList] ∧
      (run i data).entry_size = σ.entry_size) :
    Answers x ((∃ i, ref = .own i) ∧ σ.entry_size ≤ mem.length) σ.entry_size := by
  have hlo : (∃ data : σ.Data, load mem 0 σ.entry_size = some data) ↔
      σ.entry_size ≤ mem.length := by
    rw [exists_load_iff]
    omega
  have han : ∀ a, x = .ok a → ∃ d : σ.Data, a.entries = [d.toList] ∧
      a.entry_size = σ.entry_size := by
    intro a ha
    obtain ⟨i, -, ha⟩ := bind_eq_ok.mp (hx.symm.trans ha)
    obtain ⟨data, -, ha⟩ := bind_eq_ok.mp ha
    cases ha
    exact hrun i data
  refine ⟨?_, fun a ha => ?_, fun a ha => ?_⟩
  · simp only [hx, noFault_asHash_bind, requestEntry, noFault_orFault_bind, noFault_ok, and_true,
      exists_and_right, hlo]
  · obtain ⟨d, he, hsz⟩ := han a ha
    refine ⟨fun d' hd' => ?_, hsz ▸ σ.entry_size_lt, ?_⟩
    · rw [he, mem_singleton] at hd'
      rw [hd', hsz, d.toList_length]
    · rw [he, length_singleton]
      exact Nat.one_lt_two_pow (by decide)
  · obtain ⟨d, he, hsz⟩ := han a ha
    rw [he, hsz]
    exact one_mul _

theorem requestHashDelete_answers :
    Answers (dbtableRequestHashDelete env t ref mem)
      ((∃ i, ref = .own i) ∧ σ.entry_size ≤ mem.length) σ.entry_size := by
  exact oneEntry_answers rfl fun i data => ⟨_, rfl, rfl⟩

theorem requestHashSearch_answers :
    Answers (dbtableRequestHashSearch env t ref mem)
      ((∃ i, ref = .own i) ∧ σ.entry_size ≤ mem.length) σ.entry_size := by
  refine oneEntry_answers rfl fun i data => ?_
  unfold searchAnswer
  cases dbtableHashSearch env t i data none with
  | ok found => exact ⟨found, rfl, rfl⟩
  | error code => exact ⟨_, rfl, rfl⟩

theorem requestHashTraversal_answers (t : Table σ) :
    Answers (.ok (dbtableRequestHashTraversal t)) True
      ((existingEntries t).length * σ.entry_size) := by
  refine ⟨iff_of_true (noFault_ok _) trivial, fun a ha => ?_, fun a ha => ?_⟩
  · cases ha
    refine ⟨fun d hd => ?_, σ.entry_size_lt, ?_⟩
    · obtain ⟨id, -, hid⟩ := mem_filterMap.mp hd
      obtain ⟨x, -, rfl⟩ := Option.map_eq_some_iff.mp hid
      exact x.toList_length
    · calc (existingEntries t).length ≤ (range σ.entry_num).length :=
            length_filterMap_le _ _
        _ = σ.entry_num := length_range
        _ < 2 ^ 31 := σ.entry_num_lt
  · cases ha
    rfl

theorem requestHashCount_answers (e : Endian) (t : Table σ) :
    Answers (.ok (dbtableRequestHashCount e t)) True 4 := by
  refine ⟨iff_of_true (noFault_ok _) trivial, fun a ha => ?_, fun a ha => ?_⟩
  · cases ha
    refine ⟨fun d hd => ?_, ?_, ?_⟩
    · rw [mem_singleton.mp hd]
      exact Word.length_toBytes e _
    · change 4 < 2 ^ 32
      decide
    · change 1 < 2 ^ 31
      decide
  · cases ha
    rfl

end

/-! ### Responses -/

theorem copyEntries_ok_iff {size : UInt32} {ds : List (List UInt8)} {data : List UInt8}
    (hlen : ∀ d ∈ ds, d.length = size.toNat) :
    copyEntries size ds.length ds = .ok data ↔
      (ds = [] ∨ size.toNat < 2 ^ 31) ∧ ds.flatten = data := by
  by_cases hsz : size.toNat < 2 ^ 31
  · rw [copyEntries_eq hsz hlen]
    exact ⟨fun h => ⟨.inr hsz, ok.inj h⟩, fun h => congrArg _ h.2⟩
  cases ds with
  | nil => exact ⟨fun h => ⟨.inl rfl, ok.inj h⟩, fun h => congrArg _ h.2⟩
  | cons d ds =>
    have hc : memcpyFrom d size = .error .outOfBounds := if_neg fun h => hsz h.1
    rw [length_cons, copyEntries, hc]
    refine iff_of_false (fun h => by cases h) fun h => ?_
    rcases h.1 with h | h
    · cases h
    · exact hsz h

theorem sendResponse_noFault_iff (e : Endian) (s : ServiceDb) {r : DbtableResponse}
    {table_name : CString} (hd : r.db_name = none) (htbl : r.table_name = some table_name)
    (hlt : table_name.length < maxNameLen)
    (hcn : (signed32 r.entry_count).toNat = r.response_entry.length)
    (hsz : ∀ d ∈ r.response_entry, d.length = r.entry_size.toNat) :
    NoFault (sendResponse e s r) ↔ table_name.format.isSome = true ∧
      responsePacketSize + r.response_entry.length * r.entry_size.toNat ≤ maxDbPacketLen := by
  have hf : r.response_entry.flatten.length = r.response_entry.length * r.entry_size.toNat := by
    rw [length_flatten, map_congr_left hsz, map_const', sum_replicate_nat]
  have hpk : ∀ name : CString, name.length < maxNameLen →
      ((responseFields e ⟨[], not_mem_nil⟩ name r).flatten ++
        r.response_entry.flatten).length =
        responsePacketSize + r.response_entry.length * r.entry_size.toNat := by
    intro name hn
    rw [length_append, length_flatten, map_length_responseFields (by decide) hn, hf]
    rfl
  have hg : osalDbTableResponseGeneratePacket e r =
      (do
        let name ← sprintfName table_name
        let data ← copyEntries r.entry_size r.response_entry.length r.response_entry
        .ok (some ((responseFields e ⟨[], not_mem_nil⟩ name r).flatten ++ data))) := by
    unfold osalDbTableResponseGeneratePacket
    rw [htbl, hd, hcn]
    exact if_pos hlt
  unfold sendResponse
  rw [hg]
  constructor
  · intro h
    obtain ⟨p, hp, h⟩ := noFault_bind.mp h
    obtain ⟨name, hn, hp⟩ := bind_eq_ok.mp hp
    obtain ⟨data, hdt, hp⟩ := bind_eq_ok.mp hp
    cases hp
    obtain ⟨-, rfl⟩ := (copyEntries_ok_iff hsz).mp hdt
    refine ⟨Option.isSome_iff_exists.mpr ⟨name, sprintfName_eq_ok_iff.mp hn⟩, ?_⟩
    by_contra hle
    rw [← hpk name (sprintfName_length hn hlt)] at hle
    dsimp only at h
    rw [if_neg hle] at h
    exact not_noFault_error _ h
  · rintro ⟨hfm, hle⟩
    obtain ⟨name, hn⟩ := Option.isSome_iff_exists.mp hfm
    have hn : sprintfName table_name = .ok name := sprintfName_eq_ok_iff.mpr hn
    -- A response that fits has no entry of a negative size.
    have hok : r.response_entry = [] ∨ r.entry_size.toNat < 2 ^ 31 := by
      refine or_iff_not_imp_left.mpr fun hne => ?_
      have hpo : 1 ≤ r.response_entry.length := length_pos_iff.mpr hne
      have ho := mul_le_mul_right r.entry_size.toNat hpo
      unfold maxDbPacketLen at hle
      omega
    have hc := (copyEntries_ok_iff hsz).mpr ⟨hok, rfl⟩
    refine noFault_bind.mpr ⟨_, bind_eq_ok.mpr ⟨name, hn, bind_eq_ok.mpr ⟨_, hc, rfl⟩⟩, ?_⟩
    dsimp only
    rw [if_pos ((hpk name (sprintfName_length hn hlt)).trans_le hle)]
    exact noFault_ok _

section

variable {e : Endian} {env : Env} {s : ServiceDb} {r : DbtableRequest} {table_name : CString}

theorem emptyResponse_noFault_iff (code : UInt32) (hlt : table_name.length < maxNameLen) :
    NoFault (sendResponse e s (emptyResponse r table_name code)) ↔
      table_name.format.isSome = true := by
  have hc : (signed32 (emptyResponse r table_name code).entry_count).toNat = 0 := by
    change (signed32 0).toNat = 0
    decide
  rw [sendResponse_noFault_iff e s rfl rfl hlt hc fun d hd => absurd hd not_mem_nil]
  exact and_iff_left (by change 88 + 0 * _ ≤ 20000; omega)

theorem Answers.send_iff {σ : Schema} {run : Except Fault (Answer σ)} {P : Prop} {bytes : ℕ}
    (hrun : Answers run P bytes) (hlt : table_name.length < maxNameLen)
    (next : Answer σ → ServiceDb) :
    NoFault (do
        let a ← run
        sendResponse e (next a) (answerResponse r table_name a)) ↔
      table_name.format.isSome = true ∧ P ∧ responsePacketSize + bytes ≤ maxDbPacketLen := by
  have hse : ∀ a, run = .ok a →
      (NoFault (sendResponse e (next a) (answerResponse r table_name a)) ↔
        table_name.format.isSome = true ∧ responsePacketSize + bytes ≤ maxDbPacketLen) := by
    intro a ha
    have hwf := hrun.wellFormed a ha
    have hln := hwf.length_lt
    have hc : (UInt32.ofNat a.entries.length).toNat = a.entries.length :=
      UInt32.toNat_ofNat_of_lt' (hln.trans (by decide))
    have hsz : (UInt32.ofNat a.entry_size).toNat = a.entry_size :=
      UInt32.toNat_ofNat_of_lt' hwf.entry_size_lt
    rw [sendResponse_noFault_iff e (next a) rfl rfl hlt]
    · change _ ∧ _ + a.entries.length * (UInt32.ofNat a.entry_size).toNat ≤ _ ↔ _
      rw [hsz, hrun.bytes a ha]
    · change (signed32 (UInt32.ofNat a.entries.length)).toNat = a.entries.length
      rw [signed32_of_lt (by omega), Int.toNat_natCast, hc]
    · intro d hd
      exact (hwf.entries d hd).trans hsz.symm
  rw [noFault_bind, ← hrun.noFault]
  constructor
  · rintro ⟨a, ha, h⟩
    obtain ⟨hf, hle⟩ := (hse a ha).mp h
    exact ⟨hf, ⟨a, ha⟩, hle⟩
  · rintro ⟨hf, ⟨a, ha⟩, hle⟩
    exact ⟨a, ha, (hse a ha).mpr ⟨hf, hle⟩⟩

theorem foundRequest_noFault_iff (f : Found) (hlt : table_name.length < maxNameLen) :
    NoFault (do
        let p ← foundRequest e env s r table_name f
        sendResponse e p.1 p.2) ↔
      table_name.format.isSome = true ∧ (f.ref.indexType = .hash →
        OpSafe env f r.request_entry_data (ofCode r.request_type)) := by
  -- The answer when there is no operation to run.
  have he : ∀ {code : UInt32} {Q : Prop}, Q →
      (NoFault (sendResponse e s (emptyResponse r table_name code)) ↔
        table_name.format.isSome = true ∧ Q) := by
    intro code Q hQ
    rw [emptyResponse_noFault_iff code hlt, and_iff_left hQ]
  -- The answer of an operation.
  have hrun : ∀ {run : Except Fault (Answer f.table.schema)} {P Q : Prop} {bytes : ℕ},
      Answers run P bytes → (Q ↔ P ∧ responsePacketSize + bytes ≤ maxDbPacketLen) →
      (NoFault (do
          let p ← (do
            let a ← run
            .ok (s.set f.k { f.table with table := a.table }, answerResponse r table_name a))
          sendResponse e p.1 p.2) ↔
        table_name.format.isSome = true ∧ (IndexType.hash = .hash → Q)) := by
    intro run P Q bytes ha hQ
    have ht : (IndexType.hash = .hash → Q) ↔ Q := imp_iff_right rfl
    rw [bind_assoc, ht, hQ]
    exact ha.send_iff hlt _
  have hsm : ∀ bytes, bytes ≤ 4 → responsePacketSize + bytes ≤ maxDbPacketLen := by
    intro bytes hle
    unfold responsePacketSize maxDbPacketLen
    omega
  unfold foundRequest
  cases hi : f.ref.indexType with
  | seq | array => cases ofCode r.request_type <;> exact he nofun
  | hash =>
    cases ofCode r.request_type with
    | insert | update =>
      exact hrun requestHashInsert_answers (and_iff_left (hsm 0 (by decide))).symm
    | delete => exact hrun requestHashDelete_answers and_assoc.symm
    | search => exact hrun requestHashSearch_answers and_assoc.symm
    | traver => exact hrun (requestHashTraversal_answers _) (and_iff_right trivial).symm
    | count =>
      exact hrun (requestHashCount_answers e _) (iff_of_true trivial ⟨trivial, hsm 4 le_rfl⟩)
    | head | next | showAll | max | indexCreate | other => exact he fun _ => trivial

theorem answerRequest_noFault_iff {db_name index_name : CString}
    (hd : r.db_name = db_name.nonEmpty) (htbl : r.table_name = table_name.nonEmpty)
    (hi : r.index_name = index_name.nonEmpty) (hlt : table_name.length < maxNameLen) :
    NoFault (answerRequest e env s r) ↔
      (0 < db_name.length → 0 < table_name.length → 0 < index_name.length →
        RequestSafe env s db_name table_name index_name r.request_type r.request_entry_data) := by
  unfold answerRequest dbtableRequest RequestSafe
  -- A request with an empty name is not answered at all.
  rcases Nat.eq_zero_or_pos db_name.length with h | hdbPos
  · rw [hd, CString.nonEmpty, if_pos h]
    exact iff_of_true (noFault_ok _) fun h' => absurd h h'.ne'
  rw [hd, nonEmpty_of_pos hdbPos, imp_iff_right hdbPos]
  rcases Nat.eq_zero_or_pos table_name.length with h | htablePos
  · rw [htbl, CString.nonEmpty, if_pos h]
    exact iff_of_true (noFault_ok _) fun h' => absurd h h'.ne'
  rw [htbl, nonEmpty_of_pos htablePos, imp_iff_right htablePos]
  rcases Nat.eq_zero_or_pos index_name.length with h | hindexPos
  · rw [hi, CString.nonEmpty, if_pos h]
    exact iff_of_true (noFault_ok _) fun h' => absurd h h'.ne'
  rw [hi, nonEmpty_of_pos hindexPos, imp_iff_right hindexPos]
  dsimp only
  split_ifs with hc
  · exact (emptyResponse_noFault_iff _ hlt).trans (and_iff_left fun h => absurd hc h).symm
  refine Iff.trans ?_ (and_congr_right fun _ => (imp_iff_right hc).symm)
  cases hfd : dbtableIndexGetByName s db_name table_name index_name with
  | error code =>
    have hno : ∀ f, error code = ok f → f.ref.indexType = .hash →
        OpSafe env f r.request_entry_data (ofCode r.request_type) :=
      fun _ h => absurd h (by simp)
    rw [and_iff_left hno]
    exact emptyResponse_noFault_iff _ hlt
  | ok f =>
    rw [bind_assoc]
    refine (foundRequest_noFault_iff f hlt).trans (and_congr_right fun _ => ?_)
    constructor
    · intro h f' hf'
      rwa [← ok.inj hf']
    · intro h
      exact h f rfl

end

/-! ### Packets -/

section

variable {e : Endian} {buf : List UInt8}

theorem dumpRequestPacket_noFault_iff {debug : Bool} :
    NoFault (dumpRequestPacket e debug buf) ↔ requestPacketSize ≤ buf.length ∧
      (debug = true → (cstringAt buf 0).isSome = true ∧ (cstringAt buf 31).isSome = true ∧
        (cstringAt buf 76).isSome = true ∧
        ∀ size, wordAt e buf 108 = some size →
          (signed32 size).toNat = 0 ∨ requestPacketSize + (signed32 size).toNat ≤ buf.length) := by
  have hwd : (∃ size, wordAt e buf 108 = some size) ↔ requestPacketSize ≤ buf.length :=
    exists_wordAt_iff
  have hlo : ∀ size : UInt32, (∃ d, load buf 112 (signed32 size).toNat = some d) ↔
      (signed32 size).toNat = 0 ∨ requestPacketSize + (signed32 size).toNat ≤ buf.length := by
    intro size
    rw [exists_load_iff]
    unfold requestPacketSize
    omega
  unfold dumpRequestPacket
  rw [noFault_orFault_bind, ← hwd]
  cases debug with
  | false => simp only [Bool.false_eq_true, if_false, noFault_ok, and_true, false_implies]
  | true =>
    simp only [if_true, noFault_orFault_bind, noFault_ok, and_true, exists_and_right, hlo,
      Option.isSome_iff_exists, true_implies]
    constructor
    · rintro ⟨size, hsz, hd, htbl, hi, hdt⟩
      refine ⟨⟨size, hsz⟩, hd, htbl, hi, fun size' hsz' => ?_⟩
      rwa [← Option.mem_unique hsz hsz']
    · rintro ⟨⟨size, hsz⟩, hd, htbl, hi, hdt⟩
      exact ⟨size, hsz, hd, htbl, hi, hdt size hsz⟩

theorem exists_words (e : Endian) (hlen : requestPacketSize ≤ buf.length) :
    ∃ flag request_id request_type size, wordAt e buf 64 = some flag ∧
      wordAt e buf 68 = some request_id ∧ wordAt e buf 72 = some request_type ∧
      wordAt e buf 108 = some size := by
  have hwd : ∀ off, off + 4 ≤ requestPacketSize → ∃ x, wordAt e buf off = some x :=
    fun off ho => exists_wordAt_iff.mpr (ho.trans hlen)
  obtain ⟨flag, hf⟩ := hwd 64 (by decide)
  obtain ⟨request_id, hid⟩ := hwd 68 (by decide)
  obtain ⟨request_type, ht⟩ := hwd 72 (by decide)
  obtain ⟨size, hsz⟩ := hwd 108 (by decide)
  exact ⟨flag, request_id, request_type, size, hf, hid, ht, hsz⟩

theorem parsed_noFault_iff (hlen : requestPacketSize ≤ buf.length) (env : Env) (s : ServiceDb) :
    NoFault (do
        let request ← osalDbTableRequestParsePacket e buf
        match request with
        | none => sendResponse e s parseErrorResponse
        | some r => answerRequest e env s r) ↔
      ∃ db_name, cstringAt buf 0 = some db_name ∧ (db_name.length < maxNameLen →
        ∃ table_name, cstringAt buf 31 = some table_name ∧ (table_name.length < maxNameLen →
          ∃ index_name, cstringAt buf 76 = some index_name ∧ (index_name.length < maxNameLen →
            0 < db_name.length → 0 < table_name.length → 0 < index_name.length →
            ∀ type, wordAt e buf 72 = some type → RequestSafe env s db_name table_name index_name
              type (buf.drop requestPacketSize)))) := by
  obtain ⟨flag, request_id, request_type, size, hf, hid, ht, hsz⟩ := exists_words e hlen
  unfold osalDbTableRequestParsePacket
  rw [bind_assoc, noFault_orFault_bind]
  refine exists_congr fun db_name => and_congr_right fun _ => ?_
  rw [noFault_unless_bind ?_, not_le, bind_assoc, noFault_orFault_bind]
  refine forall_congr' fun _ => exists_congr fun table_name => and_congr_right fun _ => ?_
  rw [noFault_unless_bind ?_, not_le, bind_assoc, noFault_orFault_bind]
  refine forall_congr' fun htableLt => exists_congr fun index_name => and_congr_right fun _ => ?_
  rw [noFault_unless_bind ?_, not_le, hf, orFault_bind, hid, orFault_bind, ht, orFault_bind, hsz,
    orFault_bind]
  refine forall_congr' fun _ => (answerRequest_noFault_iff rfl rfl rfl htableLt).trans ?_
  simp only [Option.some.injEq, forall_eq']
  -- A name that is too long ends the parse, and the error is reported.
  all_goals exact noFault_ok _

/-- The service comes through a packet without a fault if and only if nothing was received or the
packet is safe. -/
theorem readHandler_noFault_iff (e : Endian) (env : Env) (debug : Bool) (s : ServiceDb)
    (buf : List UInt8) :
    NoFault (osalDbLocalServiceReadHandler e env debug s buf) ↔
      buf = [] ∨ PacketSafe e env debug s buf := by
  by_cases hnil : buf = []
  · subst hnil
    exact iff_of_true (noFault_ok _) (.inl rfl)
  rw [or_iff_right hnil]
  unfold osalDbLocalServiceReadHandler
  rw [if_neg (mt length_eq_zero_iff.mp hnil), noFault_bind]
  constructor
  · rintro ⟨⟨⟩, hdump, h⟩
    obtain ⟨hlen, hdebug⟩ := dumpRequestPacket_noFault_iff.mp ⟨(), hdump⟩
    obtain ⟨db_name, hdb, h⟩ := (parsed_noFault_iff hlen env s).mp h
    refine ⟨hlen, hdebug, ⟨db_name, hdb, fun hdbLt => ?_⟩, ?_⟩
    · obtain ⟨table_name, htable, h⟩ := h hdbLt
      refine ⟨table_name, htable, fun htableLt => ?_⟩
      obtain ⟨index_name, hindex, -⟩ := h htableLt
      exact ⟨index_name, hindex⟩
    · intro db_name' table_name' index_name' type hdb' htable' hindex' htype hdbOk htableOk hindexOk
      obtain rfl := Option.mem_unique hdb hdb'
      obtain ⟨table_name, htable, h⟩ := h hdbOk.2
      obtain rfl := Option.mem_unique htable htable'
      obtain ⟨index_name, hindex, h⟩ := h htableOk.2
      obtain rfl := Option.mem_unique hindex hindex'
      exact h hindexOk.2 hdbOk.1 htableOk.1 hindexOk.1 type htype
  · intro hsafe
    obtain ⟨⟨⟩, hdump⟩ := dumpRequestPacket_noFault_iff.mpr ⟨hsafe.header, hsafe.dump⟩
    obtain ⟨db_name, hdb, h⟩ := hsafe.names
    refine ⟨(), hdump, (parsed_noFault_iff hsafe.header env s).mpr ⟨db_name, hdb, fun hdbLt => ?_⟩⟩
    obtain ⟨table_name, htable, h⟩ := h hdbLt
    refine ⟨table_name, htable, fun htableLt => ?_⟩
    obtain ⟨index_name, hindex⟩ := h htableLt
    refine ⟨index_name, hindex, fun hindexLt hdbPos htablePos hindexPos type htype => ?_⟩
    exact hsafe.request _ _ _ _ hdb htable hindex htype ⟨hdbPos, hdbLt⟩ ⟨htablePos, htableLt⟩
      ⟨hindexPos, hindexLt⟩

theorem readHandler_requestPacket {db_name table_name index_name : CString}
    (hdb : db_name.length < maxNameLen) (htbl : table_name.length < maxNameLen)
    (hi : index_name.length < maxNameLen) (env : Env) (s : ServiceDb) (r : DbtableRequest)
    (data : List UInt8) :
    osalDbLocalServiceReadHandler e env false s
        ((requestFields e db_name table_name index_name r).flatten ++ data) =
      answerRequest e env s { r with
        db_name := db_name.nonEmpty, table_name := table_name.nonEmpty,
        index_name := index_name.nonEmpty, request_entry_data := data } := by
  have hlen : requestPacketSize ≤
      ((requestFields e db_name table_name index_name r).flatten ++ data).length := by
    rw [length_append, length_flatten, map_length_requestFields hdb htbl hi]
    exact le_add_right _ _
  obtain ⟨⟨⟩, hd⟩ := (dumpRequestPacket_noFault_iff (e := e)).mpr
    ⟨hlen, fun h : false = true => absurd h (by decide)⟩
  unfold osalDbLocalServiceReadHandler
  rw [if_neg (ne_of_gt (lt_of_lt_of_le (by decide) hlen)), hd,
    parse_requestPacket hdb htbl hi r data]
  rfl

end

theorem length_nameField : (116 :: replicate 30 (0 : UInt8)).length = 31 := rfl

def letterTable : Schema := { twoKeys with name := ⟨_, length_nameField⟩ }

theorem letterTable_pos : 0 < letterTable.index_list.length := by decide

def letterDb : ServiceDb where
  tables := [{
    schema := letterTable
    table := createDbtable _
    index_list := [(nameI, .own ⟨0, letterTable_pos⟩)] }]

def letterPacket (type : UInt32) (index_name : CString) (data : List UInt8) : List UInt8 :=
  (requestFields .little nameD nameT index_name
    { requestFor nameT with request_type := type }).flatten ++ data

/-- A search without an entry behind the header reads past the packet; and a search through an index
that the client had made before uses it as a hash index. -/
theorem readHandler_faults :
    osalDbLocalServiceReadHandler .little quietEnv false letterDb
        (letterPacket 2 nameI []) = .error .outOfBounds ∧
      ∃ s p, osalDbLocalServiceReadHandler .little quietEnv false letterDb
          (letterPacket 10 nameJ []) = .ok (s, some p) ∧
        osalDbLocalServiceReadHandler .little quietEnv false s
          (letterPacket 2 nameJ [1, 2]) = .error .wrongIndexType := by
  obtain ⟨created, hcreated⟩ : ∃ s, s = (dbtableRequestCommonIndexCreate letterDb
      nameT nameJ).1 := ⟨_, rfl⟩
  have hcreate : ∃ p, osalDbLocalServiceReadHandler .little quietEnv false letterDb
      (letterPacket 10 nameJ []) = .ok (created, some p) := by
    rw [letterPacket, readHandler_requestPacket (by decide) (by decide) (by decide), hcreated]
    exact ⟨_, rfl⟩
  obtain ⟨p, hp⟩ := hcreate
  refine ⟨?_, created, p, hp, ?_⟩
  · rw [letterPacket, readHandler_requestPacket (by decide) (by decide) (by decide)]
    rfl
  · rw [letterPacket, readHandler_requestPacket (by decide) (by decide) (by decide), hcreated]
    rfl

end Chanos.Service

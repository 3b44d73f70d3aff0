import Chanos.Database.Table
import Chanos.Lib.CString
import Chanos.Lib.Except

/-!
# The packets of the database service

A request and its response are one packet each: a header, with the names in fields of 31 bytes and
the numbers in the order of the host, and behind it the entries. A name is written by `sprintf` with
the name as the format, so a packet survives the way exactly when there is no `%` in its names
(`codec_roundTrip_iff`).
-/

namespace Chanos.Service

open Lib Database List Option Word Except
variable {s o : CString}

def maxNameLen : ℕ := 31

structure DbtableRequest where
  db_name : Option CString
  table_name : Option CString
  flag : UInt32
  request_id : UInt32
  request_type : UInt32
  index_name : Option CString
  size : UInt32
  request_entry_data : List UInt8
  deriving DecidableEq

structure DbtableResponse where
  db_name : Option CString
  table_name : Option CString
  flag : UInt32
  response_id : UInt32
  response_type : UInt32
  return_code : UInt32
  entry_count : UInt32
  entry_size : UInt32
  response_entry : List (List UInt8)
  deriving DecidableEq

def orFault {α : Type*} : Option α → Except Fault α
  | some a => .ok a
  | none => .error .outOfBounds

theorem orFault_bind {α β : Type} (a : α) (f : α → Except Fault β) :
    (orFault (some a) >>= f) = f a := rfl

def memcpyFrom (mem : List UInt8) (size : UInt32) : Except Fault (List UInt8) :=
  if size.toNat < 2 ^ 31 ∧ size.toNat ≤ mem.length then .ok (mem.take size.toNat)
  else .error .outOfBounds

def sprintfName (name : CString) : Except Fault CString :=
  match name.format with
  | some s => .ok s
  | none => .error .formatString

def packetDbName : Option CString → Except Fault CString
  | none => .ok ⟨[], List.not_mem_nil⟩
  | some name => if name.length < maxNameLen then sprintfName name else .ok ⟨[], List.not_mem_nil⟩

variable (e : Endian)

def requestFields (db_name table_name index_name : CString) (r : DbtableRequest) :
    List (List UInt8) :=
  [nameField maxNameLen db_name, nameField maxNameLen table_name, [0, 0], toBytes e r.flag,
    toBytes e r.request_id, toBytes e r.request_type, nameField maxNameLen index_name, [0],
    toBytes e r.size]

def requestPacketSize : ℕ := 112

def osalDbTableRequestGeneratePacket (r : DbtableRequest) :
    Except Fault (Option (List UInt8)) :=
  match r.table_name, r.index_name with
  | some table_name, some index_name => do
    let db_name ← packetDbName r.db_name
    if table_name.length < maxNameLen then
      let table_name ← sprintfName table_name
      if index_name.length < maxNameLen then
        let index_name ← sprintfName index_name
        let data ← memcpyFrom r.request_entry_data r.size
        .ok (some ((requestFields e db_name table_name index_name r).flatten ++ data))
      else .ok none
    else .ok none
  | _, _ => .ok none

def osalDbTableRequestParsePacket (buf : List UInt8) :
    Except Fault (Option DbtableRequest) := do
  let db_name ← orFault (cstringAt buf 0)
  if maxNameLen ≤ db_name.length then .ok none
  else
    let table_name ← orFault (cstringAt buf 31)
    if maxNameLen ≤ table_name.length then .ok none
    else
      let index_name ← orFault (cstringAt buf 76)
      if maxNameLen ≤ index_name.length then .ok none
      else
        let flag ← orFault (wordAt e buf 64)
        let request_id ← orFault (wordAt e buf 68)
        let request_type ← orFault (wordAt e buf 72)
        let size ← orFault (wordAt e buf 108)
        .ok (some
          { db_name := db_name.nonEmpty, table_name := table_name.nonEmpty, flag, request_id,
            request_type, index_name := index_name.nonEmpty, size,
            request_entry_data := buf.drop requestPacketSize })

/-! ## Responses -/

def responseFields (db_name table_name : CString) (r : DbtableResponse) :
    List (List UInt8) :=
  [nameField maxNameLen db_name, nameField maxNameLen table_name, [0, 0], toBytes e r.flag,
    toBytes e r.response_id, toBytes e r.response_type, toBytes e r.return_code,
    toBytes e r.entry_count, toBytes e r.entry_size]

def responsePacketSize : ℕ := 88

def copyEntries (size : UInt32) : ℕ → List (List UInt8) → Except Fault (List UInt8)
  | 0, _ => .ok []
  | _ + 1, [] => .error .outOfBounds
  | k + 1, d :: ds => do
    let entry ← memcpyFrom d size
    let rest ← copyEntries size k ds
    .ok (entry ++ rest)

def osalDbTableResponseGeneratePacket (r : DbtableResponse) :
    Except Fault (Option (List UInt8)) :=
  match r.table_name with
  | none => .ok none
  | some table_name => do
    let db_name ← packetDbName r.db_name
    if table_name.length < maxNameLen then
      let table_name ← sprintfName table_name
      let data ← copyEntries r.entry_size (signed32 r.entry_count).toNat r.response_entry
      .ok (some ((responseFields e db_name table_name r).flatten ++ data))
    else .ok none

def readEntries (size : UInt32) : ℕ → List UInt8 → Except Fault (List (List UInt8))
  | 0, _ => .ok []
  | k + 1, mem => do
    let entry ← memcpyFrom mem size
    let rest ← readEntries size k (mem.drop size.toNat)
    .ok (entry :: rest)

def osalDbTableResponseParsePacket (buf : List UInt8) :
    Except Fault (Option DbtableResponse) := do
  let db_name ← orFault (cstringAt buf 0)
  if maxNameLen ≤ db_name.length then .ok none
  else
    let table_name ← orFault (cstringAt buf 31)
    if maxNameLen ≤ table_name.length then .ok none
    else
      let flag ← orFault (wordAt e buf 64)
      let response_id ← orFault (wordAt e buf 68)
      let response_type ← orFault (wordAt e buf 72)
      let return_code ← orFault (wordAt e buf 76)
      let entry_count ← orFault (wordAt e buf 80)
      let entry_size ← orFault (wordAt e buf 84)
      let response_entry ← readEntries entry_size (signed32 entry_count).toNat
        (buf.drop responsePacketSize)
      .ok (some
        { db_name := db_name.nonEmpty, table_name := table_name.nonEmpty, flag, response_id,
          response_type, return_code, entry_count, entry_size, response_entry })

/-! ## What is read back -/

structure DbtableRequest.Sendable (r : DbtableRequest) : Prop where
  db_name : ∃ s, r.db_name = some s ∧ 0 < s.length ∧ s.length < maxNameLen
  table_name : ∃ s, r.table_name = some s ∧ 0 < s.length ∧ s.length < maxNameLen
  index_name : ∃ s, r.index_name = some s ∧ 0 < s.length ∧ s.length < maxNameLen
  size : r.size.toNat = r.request_entry_data.length
  size_lt : r.size.toNat < 2 ^ 31

structure DbtableResponse.Sendable (r : DbtableResponse) : Prop where
  db_name : ∀ s, r.db_name = some s → 0 < s.length ∧ s.length < maxNameLen
  table_name : ∃ s, r.table_name = some s ∧ 0 < s.length ∧ s.length < maxNameLen
  entry_count : r.entry_count.toNat = r.response_entry.length
  entry_count_lt : r.entry_count.toNat < 2 ^ 31
  entry_size : ∀ d ∈ r.response_entry, d.length = r.entry_size.toNat
  entry_size_lt : r.entry_size.toNat < 2 ^ 31

def HasPercent : Option CString → Prop
  | some s => percent ∈ s.1
  | none => False

section

variable {e : Endian} {db_name table_name index_name : CString}

section

variable (hdb : db_name.length < maxNameLen) (htbl : table_name.length < maxNameLen)
include hdb htbl

theorem map_length_requestFields (hi : index_name.length < maxNameLen) (r : DbtableRequest) :
    (requestFields e db_name table_name index_name r).map length =
      [31, 31, 2, 4, 4, 4, 31, 1, 4] := by
  simp only [requestFields, map_cons, map_nil, length_nameField hdb,
    length_nameField htbl, length_nameField hi, length_toBytes]
  rfl

theorem parse_requestPacket (hi : index_name.length < maxNameLen)
    (r : DbtableRequest) (data : List UInt8) :
    osalDbTableRequestParsePacket e
        ((requestFields e db_name table_name index_name r).flatten ++ data) =
      .ok (some { r with
        db_name := db_name.nonEmpty, table_name := table_name.nonEmpty,
        index_name := index_name.nonEmpty, request_entry_data := data }) := by
  have hlen := map_length_requestFields (e := e) hdb htbl hi r
  obtain ⟨p, hp⟩ : ∃ p, p = (requestFields e db_name table_name index_name r).flatten ++ data :=
    ⟨_, rfl⟩
  have h0 : cstringAt p 0 = some db_name := hp ▸ cstringAt_field hlen 0 rfl hdb data
  have h31 : cstringAt p 31 = some table_name := hp ▸ cstringAt_field hlen 1 rfl htbl data
  have h76 : cstringAt p 76 = some index_name := hp ▸ cstringAt_field hlen 6 rfl hi data
  have h64 : wordAt e p 64 = some r.flag := hp ▸ wordAt_field hlen 3 rfl data
  have h68 : wordAt e p 68 = some r.request_id := hp ▸ wordAt_field hlen 4 rfl data
  have h72 : wordAt e p 72 = some r.request_type := hp ▸ wordAt_field hlen 5 rfl data
  have h108 : wordAt e p 108 = some r.size := hp ▸ wordAt_field hlen 8 rfl data
  have hd : p.drop requestPacketSize = data := hp ▸ drop_flatten hlen data
  rw [← hp]
  unfold osalDbTableRequestParsePacket
  rw [h0, orFault_bind, if_neg (Nat.not_le.mpr hdb), h31, orFault_bind,
    if_neg (Nat.not_le.mpr htbl), h76, orFault_bind, if_neg (Nat.not_le.mpr hi), h64,
    orFault_bind, h68, orFault_bind, h72, orFault_bind, h108, orFault_bind, hd]

theorem map_length_responseFields (r : DbtableResponse) :
    (responseFields e db_name table_name r).map length = [31, 31, 2, 4, 4, 4, 4, 4, 4] := by
  simp only [responseFields, map_cons, map_nil, length_nameField hdb,
    length_nameField htbl, length_toBytes]
  rfl

theorem parse_responsePacket (r : DbtableResponse) {data : List UInt8} {entries : List (List UInt8)}
    (hrd : readEntries r.entry_size (signed32 r.entry_count).toNat data = .ok entries) :
    osalDbTableResponseParsePacket e ((responseFields e db_name table_name r).flatten ++ data) =
      .ok (some { r with
        db_name := db_name.nonEmpty, table_name := table_name.nonEmpty,
        response_entry := entries }) := by
  have hlen := map_length_responseFields (e := e) hdb htbl r
  obtain ⟨p, hp⟩ : ∃ p, p = (responseFields e db_name table_name r).flatten ++ data := ⟨_, rfl⟩
  have h0 : cstringAt p 0 = some db_name := hp ▸ cstringAt_field hlen 0 rfl hdb data
  have h31 : cstringAt p 31 = some table_name := hp ▸ cstringAt_field hlen 1 rfl htbl data
  have h64 : wordAt e p 64 = some r.flag := hp ▸ wordAt_field hlen 3 rfl data
  have h68 : wordAt e p 68 = some r.response_id := hp ▸ wordAt_field hlen 4 rfl data
  have h72 : wordAt e p 72 = some r.response_type := hp ▸ wordAt_field hlen 5 rfl data
  have h76 : wordAt e p 76 = some r.return_code := hp ▸ wordAt_field hlen 6 rfl data
  have h80 : wordAt e p 80 = some r.entry_count := hp ▸ wordAt_field hlen 7 rfl data
  have h84 : wordAt e p 84 = some r.entry_size := hp ▸ wordAt_field hlen 8 rfl data
  have hd : p.drop responsePacketSize = data := hp ▸ drop_flatten hlen data
  rw [← hp]
  unfold osalDbTableResponseParsePacket
  rw [h0, orFault_bind, if_neg (Nat.not_le.mpr hdb), h31, orFault_bind,
    if_neg (Nat.not_le.mpr htbl), h64, orFault_bind, h68, orFault_bind, h72, orFault_bind, h76,
    orFault_bind, h80, orFault_bind, h84, orFault_bind, hd, hrd]
  rfl

end

end

section

variable {size : UInt32} (hsz : size.toNat < 2 ^ 31) {ds : List (List UInt8)}
  (hlen : ∀ d ∈ ds, d.length = size.toNat)
include hsz hlen

theorem copyEntries_eq : copyEntries size ds.length ds = .ok ds.flatten := by
  induction ds with
  | nil => rfl
  | cons d ds ih =>
    have hd : d.length = size.toNat := hlen d mem_cons_self
    have hc : memcpyFrom d size = .ok d := by
      rw [memcpyFrom, if_pos ⟨hsz, hd.ge⟩, take_of_length_le hd.le]
    rw [length_cons, copyEntries, hc, ih fun d' hd' => hlen d' (mem_cons_of_mem _ hd')]
    rfl

theorem readEntries_flatten : readEntries size ds.length ds.flatten = .ok ds := by
  induction ds with
  | nil => rfl
  | cons d ds ih =>
    have hd : d.length = size.toNat := hlen d mem_cons_self
    have hrd : memcpyFrom (d ++ ds.flatten) size = .ok d := by
      rw [memcpyFrom, if_pos ⟨hsz, by rw [length_append]; omega⟩, take_left' hd]
    rw [length_cons, flatten_cons, readEntries, hrd, drop_left' hd,
      ih fun d' hd' => hlen d' (mem_cons_of_mem _ hd')]
    rfl

end

/-! ## Round trips -/

def RequestRoundTrips (r : DbtableRequest) : Prop :=
  ∃ p, osalDbTableRequestGeneratePacket e r = .ok (some p) ∧
    osalDbTableRequestParsePacket e p = .ok (some r)

def ResponseRoundTrips (r : DbtableResponse) : Prop :=
  ∃ p, osalDbTableResponseGeneratePacket e r = .ok (some p) ∧
    osalDbTableResponseParsePacket e p = .ok (some r)

theorem sprintfName_eq_ok_iff : sprintfName s = .ok o ↔ s.format = some o := by
  unfold sprintfName
  cases s.format with
  | none => simp
  | some o' => simp

theorem sprintfName_length (h : sprintfName s = .ok o) (hlt : s.length < maxNameLen) :
    o.length < maxNameLen :=
  lt_of_le_of_lt (CString.length_format (sprintfName_eq_ok_iff.mp h)) hlt

theorem sprintfName_self_iff {s : CString} : sprintfName s = .ok s ↔ ¬HasPercent (some s) :=
  sprintfName_eq_ok_iff.trans CString.format_eq_self_iff

theorem eq_of_nonEmpty_eq_some (h : o.nonEmpty = some s) : o = s := by
  unfold CString.nonEmpty at h
  split_ifs at h
  exact some.inj h

theorem generate_request {r : DbtableRequest} {db_name table_name index_name : CString}
    (hr : r.Sendable) (hdb : r.db_name = some db_name) (htbl : r.table_name = some table_name)
    (hi : r.index_name = some index_name) :
    osalDbTableRequestGeneratePacket e r =
      (do
        let db_name ← sprintfName db_name
        let table_name ← sprintfName table_name
        let index_name ← sprintfName index_name
        .ok (some ((requestFields e db_name table_name index_name r).flatten ++
          r.request_entry_data))) := by
  have hsh : ∀ {name : Option CString} {s : CString}, name = some s →
      (∃ s, name = some s ∧ 0 < s.length ∧ s.length < maxNameLen) → s.length < maxNameLen := by
    rintro name s rfl ⟨s', hs', -, hlt⟩
    rwa [some.inj hs']
  have hc : memcpyFrom r.request_entry_data r.size = .ok r.request_entry_data := by
    rw [memcpyFrom, if_pos ⟨hr.size_lt, hr.size.le⟩, hr.size, take_length]
  have hdbName : packetDbName r.db_name = sprintfName db_name := by
    rw [hdb]
    exact if_pos (hsh hdb hr.db_name)
  unfold osalDbTableRequestGeneratePacket
  rw [htbl, hi, hc, hdbName]
  simp only [if_pos (hsh htbl hr.table_name), if_pos (hsh hi hr.index_name)]
  rfl

theorem requestRoundTrips_iff {r : DbtableRequest} (hr : r.Sendable) :
    RequestRoundTrips e r ↔
      ¬HasPercent r.db_name ∧ ¬HasPercent r.table_name ∧ ¬HasPercent r.index_name := by
  obtain ⟨db_name, hdb, hdbPos, hdbLt⟩ := hr.db_name
  obtain ⟨table_name, htbl, htablePos, htableLt⟩ := hr.table_name
  obtain ⟨index_name, hid, hindexPos, hindexLt⟩ := hr.index_name
  have hg := generate_request e hr hdb htbl hid
  rw [hdb, htbl, hid, ← sprintfName_self_iff, ← sprintfName_self_iff, ← sprintfName_self_iff]
  constructor
  · rintro ⟨p, hp, hpr⟩
    rw [hg] at hp
    obtain ⟨db, hdb', hp⟩ := bind_eq_ok.mp hp
    obtain ⟨table, htbl', hp⟩ := bind_eq_ok.mp hp
    obtain ⟨index, hid', hp⟩ := bind_eq_ok.mp hp
    cases hp
    -- The names that were written are those that are read back.
    have hb := parse_requestPacket (e := e) (sprintfName_length hdb' hdbLt)
      (sprintfName_length htbl' htableLt) (sprintfName_length hid' hindexLt) r
      r.request_entry_data
    have hsm := some.inj (ok.inj (hpr.symm.trans hb))
    have hd : some db_name = db.nonEmpty := hdb ▸ congrArg DbtableRequest.db_name hsm
    have ht : some table_name = table.nonEmpty := htbl ▸ congrArg DbtableRequest.table_name hsm
    have hi : some index_name = index.nonEmpty := hid ▸ congrArg DbtableRequest.index_name hsm
    rw [eq_of_nonEmpty_eq_some hd.symm] at hdb'
    rw [eq_of_nonEmpty_eq_some ht.symm] at htbl'
    rw [eq_of_nonEmpty_eq_some hi.symm] at hid'
    exact ⟨hdb', htbl', hid'⟩
  · rintro ⟨hdb', htbl', hid'⟩
    rw [hdb', htbl', hid'] at hg
    refine ⟨_, hg, ?_⟩
    rw [parse_requestPacket hdbLt htableLt hindexLt, CString.nonEmpty_of_pos hdbPos,
      CString.nonEmpty_of_pos htablePos, CString.nonEmpty_of_pos hindexPos, ← hdb, ← htbl, ← hid]

theorem packetDbName_iff {name : Option CString}
    (hn : ∀ s, name = some s → 0 < s.length ∧ s.length < maxNameLen) :
    (∃ s, packetDbName name = .ok s ∧ s.nonEmpty = name) ↔ ¬HasPercent name := by
  cases name with
  | none => exact ⟨fun _ h => h, fun _ => ⟨⟨[], not_mem_nil⟩, rfl, rfl⟩⟩
  | some s =>
    obtain ⟨hp, hlt⟩ := hn s rfl
    have hwr : packetDbName (some s) = sprintfName s := if_pos hlt
    rw [hwr, ← sprintfName_self_iff]
    constructor
    · rintro ⟨o, ho, hb⟩
      rwa [eq_of_nonEmpty_eq_some hb] at ho
    · intro hse
      exact ⟨s, hse, CString.nonEmpty_of_pos hp⟩

theorem packetDbName_length {name : Option CString} {s : CString} (h : packetDbName name = .ok s) :
    s.length < maxNameLen := by
  cases name with
  | none =>
    cases h
    decide
  | some o =>
    change (if o.length < maxNameLen then sprintfName o else _) = _ at h
    split_ifs at h with hlt
    · exact sprintfName_length h hlt
    · cases h
      decide

theorem generate_response {r : DbtableResponse} {table_name : CString}
    (hr : r.Sendable) (htbl : r.table_name = some table_name) :
    osalDbTableResponseGeneratePacket e r =
      (do
        let db_name ← packetDbName r.db_name
        let table_name ← sprintfName table_name
        .ok (some ((responseFields e db_name table_name r).flatten ++ r.response_entry.flatten))) := by
  obtain ⟨s, hs, -, hlt⟩ := hr.table_name
  obtain rfl := mem_unique hs htbl
  have hcn : (signed32 r.entry_count).toNat = r.response_entry.length := by
    rw [signed32_of_lt hr.entry_count_lt, Int.toNat_natCast, hr.entry_count]
  have hc : copyEntries r.entry_size (signed32 r.entry_count).toNat r.response_entry =
      .ok r.response_entry.flatten := by
    rw [hcn, copyEntries_eq hr.entry_size_lt hr.entry_size]
  unfold osalDbTableResponseGeneratePacket
  rw [htbl, hc]
  simp only [if_pos hlt]
  rfl

theorem responseRoundTrips_iff {r : DbtableResponse} (hr : r.Sendable) :
    ResponseRoundTrips e r ↔ ¬HasPercent r.db_name ∧ ¬HasPercent r.table_name := by
  obtain ⟨table_name, htbl, htablePos, htableLt⟩ := hr.table_name
  have hg := generate_response e hr htbl
  have hrd : readEntries r.entry_size (signed32 r.entry_count).toNat r.response_entry.flatten =
      .ok r.response_entry := by
    rw [signed32_of_lt hr.entry_count_lt, Int.toNat_natCast, hr.entry_count,
      readEntries_flatten hr.entry_size_lt hr.entry_size]
  rw [← packetDbName_iff hr.db_name, htbl, ← sprintfName_self_iff]
  constructor
  · rintro ⟨p, hp, hpr⟩
    rw [hg] at hp
    obtain ⟨db, hdb, hp⟩ := bind_eq_ok.mp hp
    obtain ⟨table, htbl', hp⟩ := bind_eq_ok.mp hp
    cases hp
    have hb := parse_responsePacket (e := e) (packetDbName_length hdb)
      (sprintfName_length htbl' htableLt) r hrd
    have hsm := some.inj (ok.inj (hpr.symm.trans hb))
    have ht : some table_name = table.nonEmpty := htbl ▸ congrArg DbtableResponse.table_name hsm
    rw [eq_of_nonEmpty_eq_some ht.symm] at htbl'
    exact ⟨⟨db, hdb, (congrArg DbtableResponse.db_name hsm).symm⟩, htbl'⟩
  · rintro ⟨⟨db, hdb, hb⟩, htbl'⟩
    rw [hdb, htbl'] at hg
    refine ⟨_, hg, ?_⟩
    rw [parse_responsePacket (packetDbName_length hdb) htableLt r hrd, hb,
      CString.nonEmpty_of_pos htablePos, ← htbl]

/-- Requests and responses come back from their packets as they were if and only if there is no `%`
in their names. -/
theorem codec_roundTrip_iff (e : Endian) :
    (∀ r : DbtableRequest, r.Sendable → (RequestRoundTrips e r ↔
      ¬HasPercent r.db_name ∧ ¬HasPercent r.table_name ∧ ¬HasPercent r.index_name)) ∧
    ∀ r : DbtableResponse, r.Sendable → (ResponseRoundTrips e r ↔
      ¬HasPercent r.db_name ∧ ¬HasPercent r.table_name) :=
  ⟨fun _ hr => requestRoundTrips_iff e hr, fun _ hr => responseRoundTrips_iff e hr⟩

def charName (c : UInt8) (h : c ≠ 0) : CString := ⟨[c], by simpa using h.symm⟩

def nameD : CString := charName 100 (by decide)

def nameI : CString := charName 105 (by decide)

def nameJ : CString := charName 106 (by decide)

def nameT : CString := charName 116 (by decide)

def requestFor (table_name : CString) : DbtableRequest where
  db_name := some nameD
  table_name := some table_name
  flag := 0
  request_id := 7
  request_type := 2
  index_name := some nameI
  size := 2
  request_entry_data := [1, 2]

/-- A request with names of one letter comes back. -/
theorem codec_roundTrip_letter : RequestRoundTrips .little (requestFor nameT) := by
  refine ((codec_roundTrip_iff .little).1 _ ?_).mpr ⟨?_, ?_, ?_⟩
  · exact ⟨⟨_, rfl, by decide, by decide⟩, ⟨_, rfl, by decide, by decide⟩,
      ⟨_, rfl, by decide, by decide⟩, rfl, by decide⟩
  all_goals exact fun h => absurd (mem_singleton.mp h) (by decide)

/-- Of the table name `%%` only one `%` comes back. -/
theorem codec_percent :
    ∃ p, osalDbTableRequestGeneratePacket .little (requestFor ⟨[37, 37], by decide⟩) =
        .ok (some p) ∧
      osalDbTableRequestParsePacket .little p =
        .ok (some (requestFor (charName 37 (by decide)))) := by
  have hsend : (requestFor ⟨[37, 37], by decide⟩).Sendable :=
    ⟨⟨_, rfl, by decide, by decide⟩, ⟨_, rfl, by decide, by decide⟩,
      ⟨_, rfl, by decide, by decide⟩, rfl, by decide⟩
  have hname : sprintfName ⟨[37, 37], by decide⟩ = .ok (charName 37 (by decide)) := rfl
  have hgenerate := generate_request .little hsend rfl rfl rfl
  rw [hname] at hgenerate
  exact ⟨_, hgenerate, parse_requestPacket (by decide) (by decide) (by decide) _ _⟩

end Chanos.Service

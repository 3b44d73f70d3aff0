import Chanos.Database.Message
import Chanos.Lib.Trace

/-!
# The asynchronous buffer of the forwarding database

`npd_dbtable_sync` sends the messages of the database to other slots. A message with one entry, of a
table whose flags have `DB_SYNC_ASYNC`, is put into one buffer instead. `asyncSync_iff` says in
which runs each message reaches its own target once and in order.
-/

namespace Chanos.Database

open Lib List

def maxAsyncMsgNum : ℕ := 128

/-- What `npd_dbtable_sync` knows about the chassis: the local board and slot, which slots have the
service and which are control boards, and the slot of the active master. -/
structure Chassis where
  master_active : Bool
  slotnum : ℕ
  local_slot : ℕ
  internal_service : ℕ → Bool
  is_mcu : ℕ → Bool
  master_slot : ℤ

inductive Destination
  | client (dest_slot : ℤ)
  | server (dest_slot : ℤ)
  deriving DecidableEq

namespace SyncCall

def hasFlag (m : SyncCall) (bit : UInt32) : Bool := m.sync_flag &&& bit ≠ 0

def Buffered (m : SyncCall) : Prop := m.hasFlag 16 = true ∧ m.msg.header.entry_num = 1

instance (m : SyncCall) : Decidable m.Buffered := inferInstanceAs (Decidable (_ ∧ _))

def totalLen (m : SyncCall) : ℕ := m.msg.header.total_len.toNat

def table (m : SyncCall) : List UInt8 := m.msg.header.name.toList.takeWhile (· ≠ 0)

def slotsWith (ch : Chassis) (p : ℕ → Bool) : List Destination :=
  ((List.range ch.slotnum).filter fun i => i ≠ ch.local_slot && p i).map fun i => .client (i + 1)

def targets (ch : Chassis) (m : SyncCall) : List Destination :=
  if ch.master_active then
    if m.hasFlag 1 then [.client m.slot_index]
    else if m.hasFlag 2 then slotsWith ch ch.internal_service
    else if m.hasFlag 4 then slotsWith ch ch.is_mcu
    else []
  else [.server (ch.master_slot + 1)]

def addressed (ch : Chassis) (m : SyncCall) : List (Destination × SyncCall) :=
  (m.targets ch).map fun d => (d, m)

end SyncCall

/-- The buffer and what has happened: the size of `sync_buffer` when it is allocated, the messages
in it, whether something was written behind its end, and the messages that were sent, with their
destinations. -/
structure AsyncState where
  sync_buffer : Option ℕ
  pending : List SyncCall
  sync_len : ℕ
  sync_num : ℕ
  outside : Bool
  sent : List (Destination × SyncCall)
  produced : List SyncCall

open AsyncState

def AsyncState.init : AsyncState := ⟨none, [], 0, 0, false, [], []⟩

/-- A call of `npd_dbtable_sync`, with whether `malloc` succeeds, or a turn of
`npd_fdb_async_thread_main`. -/
inductive AsyncAction
  | sync (m : SyncCall) (allocated : Bool)
  | drain
  deriving DecidableEq

open AsyncAction

namespace AsyncState

def send (s : AsyncState) (d : Destination) : AsyncState :=
  { s with sent := s.sent ++ s.pending.map (fun m => (d, m)), pending := [], sync_len := 0,
           sync_num := 0 }

def sendNow (ch : Chassis) (s : AsyncState) (m : SyncCall) : AsyncState :=
  { s with sent := s.sent ++ m.addressed ch, produced := s.produced ++ [m] }

def put (s : AsyncState) (size : ℕ) (m : SyncCall) : AsyncState :=
  { s with sync_buffer := some size, pending := s.pending ++ [m],
           sync_len := s.sync_len + m.totalLen, sync_num := s.sync_num + 1,
           outside := s.outside || decide (size < s.sync_len + m.totalLen),
           produced := s.produced ++ [m] }

end AsyncState

variable (ch : Chassis) (s : AsyncState)

def npdDbtableSync (m : SyncCall) (allocated : Bool) : AsyncState :=
  if m.Buffered then
    match s.sync_buffer with
    | none =>
      if allocated then
        { s with pending := [], sync_len := 0, sync_num := 0 }.put
          (m.totalLen * maxAsyncMsgNum % 4294967296) m
      else s.sendNow ch m
    | some size =>
      let s := s.put size m
      if maxAsyncMsgNum ≤ s.sync_num then s.send (.client m.slot_index) else s
  else s.sendNow ch m

def npdFdbAsyncThreadTurn : AsyncState :=
  if ch.master_active = true ∧ s.sync_buffer ≠ none ∧ 0 < s.sync_num ∧ headerSize < s.sync_len then
    s.send (.client (-1))
  else s

def AsyncAction.apply : AsyncAction → AsyncState
  | .sync m allocated => npdDbtableSync ch s m allocated
  | .drain => npdFdbAsyncThreadTurn ch s

def AsyncStep (a : AsyncAction) (s' : AsyncState) : Prop :=
  s' = a.apply ch s

def AsyncState.history : List (Destination × SyncCall) :=
  s.sent ++ s.pending.flatMap (SyncCall.addressed ch)

def ofTable (t : List UInt8) (l : List (Destination × SyncCall)) : List (Destination × SyncCall) :=
  l.filter fun p => p.2.table = t

def InOrder : Prop :=
  ∀ t, ofTable t (s.history ch) = ofTable t (s.produced.flatMap (SyncCall.addressed ch))

def Delivers (a : AsyncAction) (s' : AsyncState) : Prop :=
  s'.outside = false ∧ InOrder ch s' ∧ (a = .drain → s'.pending = [])

def AllFor (d : Destination) (l : List SyncCall) : Prop :=
  ∀ m ∈ l, m.targets ch = [d]

/-- The condition on a step: a message that is put into the buffer fits there, and if it is the one
that the buffer is sent with, all messages in the buffer are for its slot alone. -/
def AsyncSafe : AsyncAction → Prop
  | .sync m allocated =>
    if m.Buffered then
      match s.sync_buffer with
      | none => allocated = true → m.totalLen ≤ m.totalLen * maxAsyncMsgNum % 4294967296
      | some size =>
        s.sync_len + m.totalLen ≤ size ∧
          (maxAsyncMsgNum ≤ s.sync_num + 1 →
            AllFor ch (.client m.slot_index) (s.pending ++ [m]))
    else m.targets ch = [] ∨ ∀ p ∈ s.pending, p.table = m.table → p.targets ch = []
  | .drain =>
    s.pending = [] ∨
      ch.master_active = true ∧ headerSize < s.sync_len ∧ AllFor ch (.client (-1)) s.pending

/-! ## Histories -/

open SyncCall

section

variable {ch : Chassis} {s : AsyncState}

theorem ofTable_append (t : List UInt8) (l l' : List (Destination × SyncCall)) :
    ofTable t (l ++ l') = ofTable t l ++ ofTable t l' :=
  filter_append l l'

theorem mem_ofTable {t : List UInt8} {l : List SyncCall} {q : Destination × SyncCall} :
    q ∈ ofTable t (l.flatMap (addressed ch)) ↔
      q.2 ∈ l ∧ q.1 ∈ q.2.targets ch ∧ q.2.table = t := by
  obtain ⟨d, m⟩ := q
  simp [ofTable, addressed, and_assoc]

theorem countP_addressed (m : SyncCall) (l : List SyncCall) :
    (l.flatMap (addressed ch)).countP (fun p => p.2 = m) = l.count m * (m.targets ch).length := by
  induction l with
  | nil => rw [flatMap_nil, countP_nil, count_nil, Nat.zero_mul]
  | cons p l ih =>
    have hp : (p.addressed ch).countP (fun q => q.2 = m) =
        if p = m then (m.targets ch).length else 0 := by
      rw [addressed, countP_map]
      split_ifs with hpm
      · rw [hpm]
        exact countP_eq_length.mpr fun d _ => decide_eq_true rfl
      · refine countP_eq_zero.mpr fun d _ hd => hpm ?_
        exact of_decide_eq_true hd
    rw [flatMap_cons, countP_append, ih, hp, count_cons]
    by_cases hpm : p = m
    · rw [if_pos hpm, if_pos (beq_iff_eq.mpr hpm), Nat.succ_mul, Nat.add_comm]
    · rw [if_neg hpm, if_neg (fun h => hpm (beq_iff_eq.mp h)), Nat.zero_add, Nat.add_zero]

theorem ofTable_map_eq_iff {d : Destination} {l : List SyncCall} :
    (∀ t, ofTable t (l.map fun m => (d, m)) = ofTable t (l.flatMap (addressed ch))) ↔
      AllFor ch d l := by
  constructor
  · intro h m hm
    -- each table has the messages once on both sides, so each message has one target
    have hc : ∀ k : List (Destination × SyncCall),
        (ofTable m.table k).countP (fun p => p.2 = m) = k.countP (fun p => p.2 = m) := by
      intro k
      rw [ofTable, countP_filter]
      refine countP_congr fun p _ => ?_
      rw [Bool.and_eq_true, decide_eq_true_eq, decide_eq_true_eq]
      exact ⟨fun hp => hp.1, fun hp => ⟨hp, by rw [hp]⟩⟩
    have hma : (l.map fun m => (d, m)).countP (fun p => p.2 = m) = l.count m := by
      rw [countP_map, count]
      exact countP_congr fun p _ => by simp
    have ht : l.count m * (m.targets ch).length = l.count m * 1 := by
      rw [← countP_addressed, ← hc, ← h, hc, hma, Nat.mul_one]
    obtain ⟨d', hd'⟩ : ∃ d', m.targets ch = [d'] :=
      length_eq_one_iff.mp (Nat.eq_of_mul_eq_mul_left (count_pos_iff.mpr hm) ht)
    have hme : (d', m) ∈ ofTable m.table (l.flatMap (addressed ch)) :=
      mem_ofTable.mpr ⟨hm, hd' ▸ mem_singleton_self d', rfl⟩
    rw [← h] at hme
    obtain ⟨p, -, hp⟩ := mem_map.mp (mem_of_mem_filter hme)
    rw [hd', (Prod.mk.inj hp).1]
  · intro h t
    have heq : l.flatMap (addressed ch) = l.flatMap fun m => [(d, m)] :=
      flatMap_congr fun m hm => by rw [addressed, h m hm, map_singleton]
    rw [heq, ← map_eq_flatMap]

theorem inOrder_put {size : ℕ} {m : SyncCall} : InOrder ch (s.put size m) ↔ InOrder ch s := by
  refine forall_congr' fun t => ?_
  have hh : (s.put size m).history ch = s.history ch ++ m.addressed ch := by
    change s.sent ++ (s.pending ++ [m]).flatMap _ = s.sent ++ s.pending.flatMap _ ++ _
    rw [flatMap_append, flatMap_singleton, append_assoc]
  have hp : (s.put size m).produced.flatMap (addressed ch) =
      s.produced.flatMap (addressed ch) ++ m.addressed ch := by
    change (s.produced ++ [m]).flatMap _ = _
    rw [flatMap_append, flatMap_singleton]
  rw [hh, hp, ofTable_append, ofTable_append, append_left_inj]

theorem inOrder_send {d : Destination} (h : InOrder ch s) :
    InOrder ch (s.send d) ↔ AllFor ch d s.pending := by
  rw [← ofTable_map_eq_iff]
  refine forall_congr' fun t => ?_
  have hh : (s.send d).history ch = s.sent ++ s.pending.map fun m => (d, m) :=
    append_nil _
  rw [hh, show (s.send d).produced = s.produced from rfl, ← h t, history,
    ofTable_append, ofTable_append, append_right_inj]

theorem inOrder_sendNow_iff {m : SyncCall} (h : InOrder ch s) :
    InOrder ch (s.sendNow ch m) ↔ ∀ t,
      ofTable t (m.addressed ch) ++ ofTable t (s.pending.flatMap (addressed ch)) =
        ofTable t (s.pending.flatMap (addressed ch)) ++ ofTable t (m.addressed ch) := by
  refine forall_congr' fun t => ?_
  change ofTable t (s.sent ++ m.addressed ch ++ s.pending.flatMap _) =
    ofTable t ((s.produced ++ [m]).flatMap _) ↔ _
  rw [flatMap_append, flatMap_singleton, ofTable_append, ofTable_append, ofTable_append,
    ← h t, history, ofTable_append, append_assoc, append_assoc, append_right_inj]

theorem append_comm_iff {α : Type*} {l l' : List α} (h : Disjoint l l') :
    l ++ l' = l' ++ l ↔ l = [] ∨ l' = [] := by
  constructor
  · intro heq
    cases l with
    | nil => exact .inl rfl
    | cons x l =>
      cases l' with
      | nil => exact .inr rfl
      | cons y l' => exact absurd ((cons.inj heq).1 ▸ mem_cons_self) (h mem_cons_self)
  · rintro (rfl | rfl)
    · exact (append_nil _).symm
    · exact append_nil _

theorem ofTable_eq_nil_iff {t : List UInt8} {l : List SyncCall} :
    ofTable t (l.flatMap (addressed ch)) = [] ↔ ∀ p ∈ l, p.table = t → p.targets ch = [] := by
  simp only [eq_nil_iff_forall_not_mem, mem_ofTable, Prod.forall]
  grind

theorem inOrder_sendNow {m : SyncCall} (h : InOrder ch s) (hpe : ∀ p ∈ s.pending, p.Buffered)
    (hm : ¬m.Buffered) :
    InOrder ch (s.sendNow ch m) ↔
      m.targets ch = [] ∨ ∀ p ∈ s.pending, p.table = m.table → p.targets ch = [] := by
  -- The message is not one of those that wait, so the two orders differ if both have a target.
  have hd (t : List UInt8) : Disjoint (ofTable t ([m].flatMap (addressed ch)))
      (ofTable t (s.pending.flatMap (addressed ch))) := by
    intro q hq hq'
    have hqm : q.2 = m := mem_singleton.mp (mem_ofTable.mp hq).1
    exact hm (hqm ▸ hpe q.2 (mem_ofTable.mp hq').1)
  rw [inOrder_sendNow_iff h, ← flatMap_singleton (addressed ch) m]
  simp only [append_comm_iff (hd _), ofTable_eq_nil_iff, mem_singleton, forall_eq]
  refine ⟨fun ha => (ha m.table).imp_left fun hn => hn rfl, fun hno t => ?_⟩
  by_cases ht : m.table = t
  · exact ht ▸ hno.imp_left fun hn _ => hn
  · exact .inl fun hmt => absurd hmt ht

end

/-! ## Steps and runs -/

structure AsyncInvariant (ch : Chassis) (s : AsyncState) : Prop where
  outside : s.outside = false
  in_order : InOrder ch s
  sync_num : s.sync_num = s.pending.length
  unallocated : s.sync_buffer = none → s.pending = []
  buffered : ∀ p ∈ s.pending, p.Buffered

theorem asyncInvariant_init : AsyncInvariant ch .init where
  outside := rfl
  in_order _ := rfl
  sync_num := rfl
  unallocated _ := rfl
  buffered _ hp := absurd hp not_mem_nil

def Handled (ch : Chassis) (s : AsyncState) (a : AsyncAction) : Prop :=
  (Delivers ch a (a.apply ch s) ↔ AsyncSafe ch s a) ∧
    (AsyncSafe ch s a → AsyncInvariant ch (a.apply ch s))

section

variable {ch : Chassis} {s : AsyncState} {m : SyncCall} {size : ℕ}

theorem outside_put (h : s.outside = false) :
    (s.put size m).outside = false ↔ s.sync_len + m.totalLen ≤ size := by
  change (s.outside || decide (size < s.sync_len + m.totalLen)) = false ↔ _
  rw [h, Bool.false_or, decide_eq_false_iff_not, Nat.not_lt]

variable (h : AsyncInvariant ch s)

include h

namespace AsyncInvariant

theorem put (hf : s.sync_len + m.totalLen ≤ size) (hm : m.Buffered) :
    AsyncInvariant ch (s.put size m) where
  outside := (outside_put h.outside).mpr hf
  in_order := inOrder_put.mpr h.in_order
  sync_num := by
    change s.sync_num + 1 = (s.pending ++ [m]).length
    rw [h.sync_num, length_append, length_singleton]
  unallocated hn := absurd hn (Option.some_ne_none size)
  buffered p hp := by
    rcases mem_append.mp hp with hp | hp
    · exact h.buffered p hp
    · rw [mem_singleton.mp hp]
      exact hm

theorem send {d : Destination} (hf : AllFor ch d s.pending) : AsyncInvariant ch (s.send d) where
  outside := h.outside
  in_order := (inOrder_send h.in_order).mpr hf
  sync_num := rfl
  unallocated _ := rfl
  buffered _ hp := absurd hp not_mem_nil

theorem sendNow (hin : InOrder ch (s.sendNow ch m)) : AsyncInvariant ch (s.sendNow ch m) :=
  ⟨h.outside, hin, h.sync_num, h.unallocated, h.buffered⟩

theorem sync_buffered (hm : m.Buffered) (hsz : s.sync_buffer = some size) (allocated : Bool) :
    Handled ch s (.sync m allocated) := by
  have hsy : npdDbtableSync ch s m allocated =
      if maxAsyncMsgNum ≤ s.sync_num + 1 then (s.put size m).send (.client m.slot_index)
      else s.put size m := by
    rw [npdDbtableSync, if_pos hm, hsz]
    rfl
  have hsa : AsyncSafe ch s (.sync m allocated) ↔ s.sync_len + m.totalLen ≤ size ∧
      (maxAsyncMsgNum ≤ s.sync_num + 1 → AllFor ch (.client m.slot_index) (s.pending ++ [m])) := by
    rw [AsyncSafe, if_pos hm, hsz]
  have hp : InOrder ch (s.put size m) := inOrder_put.mpr h.in_order
  rw [Handled, apply, hsy, hsa]
  split_ifs with hfu
  · -- the message fills the buffer, which is sent to its slot
    refine ⟨?_, fun ⟨hft, hf⟩ => (h.put hft hm).send (hf hfu)⟩
    constructor
    · rintro ⟨ho, hin, -⟩
      exact ⟨(outside_put h.outside).mp ho, fun _ => (inOrder_send hp).mp hin⟩
    · rintro ⟨hft, hf⟩
      refine ⟨(outside_put h.outside).mpr hft, (inOrder_send hp).mpr (hf hfu), ?_⟩
      intro hd
      cases hd
  · refine ⟨?_, fun ⟨hft, _⟩ => h.put hft hm⟩
    constructor
    · rintro ⟨ho, -, -⟩
      exact ⟨(outside_put h.outside).mp ho, fun hle => absurd hle hfu⟩
    · rintro ⟨hft, -⟩
      refine ⟨(outside_put h.outside).mpr hft, hp, ?_⟩
      intro hd
      cases hd

theorem sync_first (hm : m.Buffered) (hn : s.sync_buffer = none) (allocated : Bool) :
    Handled ch s (.sync m allocated) := by
  have he : s.pending = [] := h.unallocated hn
  have hsa : AsyncSafe ch s (.sync m allocated) ↔
      (allocated = true → m.totalLen ≤ m.totalLen * maxAsyncMsgNum % 4294967296) := by
    rw [AsyncSafe, if_pos hm, hn]
  rw [Handled, apply, hsa, npdDbtableSync, if_pos hm, hn]
  cases allocated with
  | false =>
    -- the message is sent at once, and nothing waits in front of it
    have hin : InOrder ch (s.sendNow ch m) := by
      refine (inOrder_sendNow_iff h.in_order).mpr fun t => ?_
      rw [he]
      exact append_nil _
    have hnw : AsyncInvariant ch (s.sendNow ch m) := h.sendNow hin
    refine ⟨⟨fun _ hf => absurd hf Bool.false_ne_true, fun _ => ⟨hnw.outside, hin, ?_⟩⟩,
      fun _ => hnw⟩
    intro hd
    cases hd
  | true =>
    have hc : AsyncInvariant ch { s with pending := [], sync_len := 0, sync_num := 0 } := by
      refine ⟨h.outside, ?_, rfl, fun _ => rfl, fun p hp => absurd hp not_mem_nil⟩
      intro t
      rw [← h.in_order t, history, history, he]
    have hlen : ∀ n, 0 + m.totalLen ≤ n ↔ m.totalLen ≤ n := fun n => by rw [Nat.zero_add]
    rw [if_pos rfl]
    refine ⟨?_, fun hft => hc.put ((hlen _).mpr (hft rfl)) hm⟩
    constructor
    · rintro ⟨ho, -, -⟩ -
      exact (hlen _).mp ((outside_put hc.outside).mp ho)
    intro hft
    have hpu := hc.put ((hlen _).mpr (hft rfl)) hm
    refine ⟨hpu.outside, hpu.in_order, ?_⟩
    intro hd
    cases hd

theorem sync_now (hm : ¬m.Buffered) (allocated : Bool) :
    Handled ch s (.sync m allocated) := by
  have hin := inOrder_sendNow h.in_order h.buffered hm
  rw [Handled, apply, npdDbtableSync, if_neg hm, AsyncSafe, if_neg hm, ← hin]
  refine ⟨⟨fun hd => hd.2.1, fun hsa => ⟨h.outside, hsa, ?_⟩⟩, h.sendNow⟩
  intro hdr
  cases hdr

theorem drain : Handled ch s .drain := by
  rw [Handled, apply, npdFdbAsyncThreadTurn, AsyncSafe]
  split_ifs with hsn
  · obtain ⟨hms, -, hn, hlen⟩ := hsn
    have hne : s.pending ≠ [] := by
      rw [h.sync_num] at hn
      exact ne_nil_of_length_pos hn
    rw [or_iff_right hne, and_iff_right hms, and_iff_right hlen]
    refine ⟨⟨fun hd => (inOrder_send h.in_order).mp hd.2.1, fun hf => ?_⟩, h.send⟩
    exact ⟨h.outside, (inOrder_send h.in_order).mpr hf, fun _ => rfl⟩
  · have he : (s.pending = [] ∨ ch.master_active = true ∧ headerSize < s.sync_len ∧
        AllFor ch (.client (-1)) s.pending) ↔ s.pending = [] := by
      refine or_iff_left_of_imp fun ⟨hms, hlen, _⟩ => ?_
      by_contra hne
      refine hsn ⟨hms, fun hnn => hne (h.unallocated hnn), ?_, hlen⟩
      rw [h.sync_num]
      exact length_pos_iff.mpr hne
    rw [he]
    exact ⟨⟨fun hd => hd.2.2 rfl, fun hni => ⟨h.outside, h.in_order, fun _ => hni⟩⟩, fun _ => h⟩

theorem step (a : AsyncAction) : Handled ch s a := by
  cases a with
  | drain => exact h.drain
  | sync m allocated =>
    by_cases hm : m.Buffered
    · cases hb : s.sync_buffer with
      | none => exact h.sync_first hm hb allocated
      | some size => exact h.sync_buffered hm hb allocated
    · exact h.sync_now hm allocated

end AsyncInvariant

end

/-- **In which runs every message is delivered.** -/
theorem asyncSync_iff (ch : Chassis) {tr : List (AsyncAction × AsyncState)}
    (hrun : Along (AsyncStep ch) .init tr) :
    Along (fun _ a s' => Delivers ch a s') .init tr ↔
      Along (fun s a _ => AsyncSafe ch s a) .init tr := by
  refine along_step_iff_of_invariant (fun s a s' hstep h => ?_) hrun (asyncInvariant_init ch)
  rw [show s' = a.apply ch s from hstep]
  exact h.step a

def masterChassis : Chassis := ⟨true, 4, 0, fun _ => true, fun _ => false, 0⟩

def fdbMessage (total_len entry_num : UInt32) (slot_index : ℤ) : SyncCall :=
  ⟨⟨⟨0, 1, 0, 0, List.Vector.replicate 32 0, total_len, 0, 0, 0, entry_num⟩, []⟩, 17, slot_index⟩

/-- Two messages for all slots wait in the buffer, and a turn of the thread sends them. -/
def twoMessages : List (AsyncAction × AsyncState) :=
  let s₁ := npdDbtableSync masterChassis .init (fdbMessage 100 1 (-1)) true
  let s₂ := npdDbtableSync masterChassis s₁ (fdbMessage 120 1 (-1)) true
  [(.sync (fdbMessage 100 1 (-1)) true, s₁), (.sync (fdbMessage 120 1 (-1)) true, s₂),
    (.drain, AsyncAction.drain.apply masterChassis s₂)]

theorem asyncSync_two_messages :
    Along (fun _ a s' => Delivers masterChassis a s') .init twoMessages ∧
      (twoMessages.map fun x => x.2.sent) = [[], [], [(.client (-1), fdbMessage 100 1 (-1)),
        (.client (-1), fdbMessage 120 1 (-1))]] := by
  have hrun : Along (AsyncStep masterChassis) .init twoMessages := ⟨rfl, rfl, rfl, trivial⟩
  refine ⟨(asyncSync_iff masterChassis hrun).mpr ⟨?_, ?_, ?_, trivial⟩, by decide +kernel⟩
  · exact fun _ => by decide
  · exact ⟨by decide +kernel, fun h => absurd h (by decide +kernel)⟩
  · refine .inr ⟨rfl, by decide +kernel, ?_⟩
    unfold AllFor
    decide +kernel

/-- A message for the slot 3 is sent to all slots by the thread; a message with two entries
overtakes one that waits in the buffer; and a message that is longer than 128 times the first one
is written behind the end of the buffer. -/
theorem asyncSync_fails :
    ((drain).apply masterChassis
          (npdDbtableSync masterChassis .init (fdbMessage 100 1 3) true)).sent =
        [(.client (-1), fdbMessage 100 1 3)] ∧
      (fdbMessage 100 1 3).targets masterChassis = [.client 3] ∧
      (npdDbtableSync masterChassis
          (npdDbtableSync masterChassis .init (fdbMessage 100 1 (-1)) true)
          (fdbMessage 132 2 (-1)) true).sent = [(.client (-1), fdbMessage 132 2 (-1))] ∧
      (npdDbtableSync masterChassis
          (npdDbtableSync masterChassis .init (fdbMessage 100 1 (-1)) true)
          (fdbMessage 20000 1 (-1)) true).outside = true := by
  refine ⟨?_, ?_, ?_, ?_⟩ <;> decide +kernel

end Chanos.Database

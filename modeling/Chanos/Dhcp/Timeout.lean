import Chanos.Dhcp.Calls
import Chanos.Lib.TimerList

/-!
# The timeouts of the bindings

A master keeps a list of timeouts beside the table, in the order in which they run out. The handlers
of the table write it: an insertion adds the timeout of the new binding, a deletion cancels it, and
an update does both where the lease time has changed.
-/

namespace Chanos.Dhcp

open Lib Database List Option UserItem

abbrev Timeout : Type := Timer ℕ (Bytes 6)

def npdDhcpSnpAddTimeout (expire_time : UInt32) (hw_addr : Bytes 6) (nds_timeout : List Timeout) :
    List Timeout :=
  TimerList.arm expire_time.toNat hw_addr nds_timeout

def npdDhcpSnpCancelTimeout (hw_addr : Bytes 6) (nds_timeout : List Timeout) : List Timeout :=
  TimerList.cancel hw_addr nds_timeout

def npdDhcpSnpGetTimeout (nds_timeout : List Timeout) : Option Timeout := nds_timeout.head?

variable (w : SizeT)

def isMaxLong (lease_time : UInt32) : Bool := lease_time.toNat = w.modulus - 1

/-! ## The handlers of the table -/

section

variable (w : SizeT) (ismaster : Bool)

def npdDhcpSnpHandleUpdate (new_entry old_entry : UserItem) (nds_timeout : List Timeout) :
    List Timeout :=
  if ismaster ∧ new_entry.lease_time ≠ old_entry.lease_time then
    let nds_timeout :=
      if isMaxLong w old_entry.lease_time then nds_timeout
      else npdDhcpSnpCancelTimeout old_entry.chaddr nds_timeout
    if isMaxLong w new_entry.lease_time then nds_timeout
    else
      npdDhcpSnpAddTimeout (new_entry.lease_time + new_entry.sys_escape) new_entry.chaddr nds_timeout
  else nds_timeout

def npdDhcpSnpHandleInsert (entry : UserItem) (nds_timeout : List Timeout) : List Timeout :=
  if ismaster ∧ ¬isMaxLong w entry.lease_time then
    npdDhcpSnpAddTimeout (entry.lease_time + entry.sys_escape) entry.chaddr nds_timeout
  else nds_timeout

def npdDhcpSnpHandleDelete (entry : UserItem) (nds_timeout : List Timeout) : List Timeout :=
  if ismaster ∧ ¬isMaxLong w entry.lease_time then
    npdDhcpSnpCancelTimeout entry.chaddr nds_timeout
  else nds_timeout

def handle (e : Endian) (nds_timeout : List Timeout) : HandlerCall userItemSize → List Timeout
  | .handleUpdate new old =>
    npdDhcpSnpHandleUpdate w ismaster (decode e new) (decode e old) nds_timeout
  | .handleInsert data => npdDhcpSnpHandleInsert w ismaster (decode e data) nds_timeout
  | .handleDelete data => npdDhcpSnpHandleDelete w ismaster (decode e data) nds_timeout
  | .appHandleUpdate _ _ | .appHandleDelete _ => nds_timeout

end

variable {e : Endian} (w : SizeT)

def ndsTimeout (t : BindingTable e) : List Timeout :=
  t.calls.foldl (handle w true e) []

section

open TimerList

variable {e : Endian} {w : SizeT} {l : List Timeout} {hw_addr : Bytes 6} {entry : UserItem}

theorem handleUpdate_eq (w : SizeT) (new_entry old_entry : UserItem) (l : List Timeout) :
    npdDhcpSnpHandleUpdate w true new_entry old_entry l =
      if new_entry.lease_time = old_entry.lease_time then l
      else npdDhcpSnpHandleInsert w true new_entry (npdDhcpSnpHandleDelete w true old_entry l) := by
  unfold npdDhcpSnpHandleUpdate npdDhcpSnpHandleInsert npdDhcpSnpHandleDelete
  by_cases hsm : new_entry.lease_time = old_entry.lease_time
  · simp [hsm]
  · cases isMaxLong w old_entry.lease_time <;> cases isMaxLong w new_entry.lease_time <;>
      simp [hsm]

theorem valid_handleInsert (h : Valid l) (entry : UserItem) :
    Valid (npdDhcpSnpHandleInsert w true entry l) := by
  unfold npdDhcpSnpHandleInsert
  split_ifs
  · exact h.arm _ _
  · exact h

theorem valid_handleDelete (h : Valid l) (entry : UserItem) :
    Valid (npdDhcpSnpHandleDelete w true entry l) := by
  unfold npdDhcpSnpHandleDelete
  split_ifs
  · exact h.cancel _
  · exact h

theorem valid_handle (h : Valid l) (call : HandlerCall userItemSize) :
    Valid (handle w true e l call) := by
  cases call with
  | handleUpdate new old =>
    rw [handle, handleUpdate_eq]
    split_ifs
    · exact h
    · exact valid_handleInsert (valid_handleDelete h _) _
  | handleInsert data => exact valid_handleInsert h _
  | handleDelete data => exact valid_handleDelete h _
  | appHandleUpdate _ _ | appHandleDelete _ => exact h

theorem valid_ndsTimeout (w : SizeT) (t : BindingTable e) : Valid (ndsTimeout w t) :=
  foldlRecOn t.calls (handle w true e) Valid.nil fun _ h call _ => valid_handle h call

theorem deadlines_handleInsert_of_ne (h : Valid l) (hne : hw_addr ≠ entry.chaddr) :
    deadlines hw_addr (npdDhcpSnpHandleInsert w true entry l) = deadlines hw_addr l := by
  unfold npdDhcpSnpHandleInsert npdDhcpSnpAddTimeout
  split_ifs
  · rw [h.deadlines_arm, if_neg hne]
  · rfl

theorem deadlines_handleDelete_of_ne (hne : hw_addr ≠ entry.chaddr) :
    deadlines hw_addr (npdDhcpSnpHandleDelete w true entry l) = deadlines hw_addr l := by
  unfold npdDhcpSnpHandleDelete npdDhcpSnpCancelTimeout
  split_ifs
  · exact deadlines_cancel_of_ne hne
  · rfl

end

/-! ## The right list -/

def infiniteLease : UInt32 := 0xFFFFFFFF

def due : Option UserItem → List ℕ
  | none => []
  | some b => if b.lease_time = infiniteLease then [] else [b.sys_escape.toNat + b.lease_time.toNat]

theorem due_some (b : UserItem) :
    due (some b) =
      if b.lease_time = infiniteLease then [] else [b.sys_escape.toNat + b.lease_time.toNat] :=
  rfl

def Matches (l : List Timeout) (m : Bindings e) : Prop :=
  ∀ hw_addr, TimerList.deadlines hw_addr l = due (m.binding hw_addr)

/-- The end of a lease that begins `now` is a number of 32 bits; a lease without an end is
recognised by the handlers. -/
def Fits (now lease_time : UInt32) : Prop :=
  if lease_time = infiniteLease then w = .bits32 else now.toNat + lease_time.toNat < 2 ^ 32

def LeaseKept (old : Option UserItem) (now lease_time : UInt32) : Prop :=
  match old with
  | some b =>
    if lease_time = b.lease_time then lease_time = infiniteLease ∨ b.sys_escape = now
    else Fits w now lease_time
  | none => Fits w now lease_time

def Change.Kept (m : Bindings e) : Change → Prop
  | write user => LeaseKept w (m.binding user.chaddr) user.sys_escape user.lease_time
  | none | erase _ => True

section

open TimerList

variable {e : Endian} {w : SizeT} {l l' : List Timeout} {m m' : Bindings e} {user b : UserItem}
  {hw_addr : Bytes 6}

theorem isMaxLong_iff (lease_time : UInt32) :
    isMaxLong w lease_time = true ↔ w = .bits32 ∧ lease_time = infiniteLease := by
  have hlt := lease_time.toNat_lt
  have hi : lease_time = infiniteLease ↔ lease_time.toNat = 2 ^ 32 - 1 := UInt32.toNat_inj.symm
  rw [isMaxLong, decide_eq_true_iff, hi]
  cases w with
  | bits32 => simp [SizeT.modulus]
  | bits64 =>
    simp only [SizeT.modulus, reduceCtorEq, false_and, iff_false]
    omega

theorem Matches.iff_at (h : Matches l m) (hl : ∀ k, k ≠ hw_addr → deadlines k l' = deadlines k l)
    (hm : ∀ k, k ≠ hw_addr → m'.binding k = m.binding k) :
    Matches l' m' ↔ deadlines hw_addr l' = due (m'.binding hw_addr) := by
  constructor
  · exact fun h' => h' hw_addr
  intro ha k
  by_cases hk : k = hw_addr
  · rw [hk]
    exact ha
  · rw [hl k hk, hm k hk]
    exact h k

/-- The timeout that an insertion adds. -/
def armed (w : SizeT) (user : UserItem) : List ℕ :=
  if isMaxLong w user.lease_time then [] else [(user.lease_time + user.sys_escape).toNat]

theorem deadlines_handleInsert (h : Valid l) (hn : deadlines user.chaddr l = []) :
    deadlines user.chaddr (npdDhcpSnpHandleInsert w true user l) = armed w user := by
  unfold npdDhcpSnpHandleInsert npdDhcpSnpAddTimeout armed
  by_cases hma : isMaxLong w user.lease_time = true
  · rw [if_neg fun h => h.2 hma, if_pos hma, hn]
  · rw [if_pos ⟨rfl, hma⟩, if_neg hma, h.deadlines_arm, if_pos rfl]

theorem armed_eq_due_iff :
    armed w user = due (some user) ↔ Fits w user.sys_escape user.lease_time := by
  have hma := isMaxLong_iff (w := w) user.lease_time
  unfold armed Fits
  rw [due_some]
  by_cases hi : user.lease_time = infiniteLease
  · rw [if_pos hi, if_pos hi]
    cases w with
    | bits32 =>
      rw [if_pos (hma.mpr ⟨rfl, hi⟩)]
      exact iff_of_true rfl rfl
    | bits64 =>
      -- The timeout is added, and is one too many.
      rw [if_neg fun h => by simpa using (hma.mp h).1]
      exact iff_of_false (by simp) (by simp)
  · rw [if_neg hi, if_neg hi, if_neg fun h => hi (hma.mp h).2, cons.injEq, and_iff_left rfl,
      UInt32.toNat_add]
    omega

theorem deadlines_handleDelete (h : Valid l)
    (hd : isMaxLong w b.lease_time = true → deadlines b.chaddr l = []) :
    deadlines b.chaddr (npdDhcpSnpHandleDelete w true b l) = [] := by
  unfold npdDhcpSnpHandleDelete npdDhcpSnpCancelTimeout
  split_ifs with hma
  · rw [h.deadlines_cancel, if_pos rfl]
  · exact hd (by simpa using hma)

theorem due_same_lease_iff (hls : user.lease_time = b.lease_time) :
    due (some b) = due (some user) ↔
      user.lease_time = infiniteLease ∨ b.sys_escape = user.sys_escape := by
  rw [due_some, due_some, ← hls]
  by_cases hi : user.lease_time = infiniteLease
  · simp [hi]
  · simp [hi, ← UInt32.toNat_inj]

abbrev written (w : SizeT) (l : List Timeout) (m : Bindings e) (user : UserItem) : List Timeout :=
  handle w true e l (writeCall (m.lookup user.chaddr) (user.encode e))

theorem handle_writeCall_of_none (h : m.binding user.chaddr = none) :
    written w l m user =
      npdDhcpSnpHandleInsert w true user l := by
  have hlk : m.lookup user.chaddr = none := map_eq_none_iff.mp h
  rw [written, hlk, writeCall, handle, decode_encode]

theorem handle_writeCall_of_some (h : m.binding user.chaddr = some b) :
    written w l m user =
      if user.lease_time = b.lease_time then l
      else npdDhcpSnpHandleInsert w true user (npdDhcpSnpHandleDelete w true b l) := by
  obtain ⟨old, hlk, hd⟩ := map_eq_some_iff.mp h
  rw [written, hlk, writeCall, handle, decode_encode, hd, handleUpdate_eq]

theorem handle_eraseCalls (h : m.binding b.chaddr = some b) :
    ((Change.erase b).calls m).foldl (handle w true e) l = npdDhcpSnpHandleDelete w true b l := by
  obtain ⟨old, ho, hd⟩ := map_eq_some_iff.mp h
  rw [Change.calls, ho, toList_some, flatMap_singleton]
  split_ifs with hsg
  · change npdDhcpSnpHandleDelete w true (decode e old) l = _
    rw [hd]
  · change npdDhcpSnpHandleDelete w true (decode e _)
      (npdDhcpSnpHandleUpdate w true (decode e _) (decode e old) l) = _
    rw [hd, decode_encode, handleUpdate_eq, if_pos rfl]
    rfl

theorem Bindings.binding_write_of_ne (hr : m.HasRoom user.chaddr) (k : Bytes 6)
    (hk : k ≠ user.chaddr) : (m.write user).binding k = m.binding k := by
  rw [binding_write hr, if_neg hk]

open Bindings

theorem Bindings.binding_erase_of_ne (k : Bytes 6) (hk : k ≠ b.chaddr) :
    binding (m.erase b.chaddr) k = m.binding k := by
  rw [binding_erase, if_neg hk]

/-! ## Timeouts of bindings only -/

/-- A binding has a timeout only if the handlers see that its lease ends. -/
def Timed (w : SizeT) (l : List Timeout) (m : Bindings e) : Prop :=
  ∀ hw_addr, (∀ b, m.binding hw_addr = some b → isMaxLong w b.lease_time = true) →
    deadlines hw_addr l = []

theorem Timed.deadlines_eq_nil (h : Timed w l m) (hb : m.binding hw_addr = some b)
    (hma : isMaxLong w b.lease_time = true) : deadlines hw_addr l = [] :=
  h hw_addr fun _ hb' => mem_unique hb hb' ▸ hma

theorem Timed.of_at (h : Timed w l m) (hl : ∀ k, k ≠ hw_addr → deadlines k l' = deadlines k l)
    (hm : ∀ k, k ≠ hw_addr → m'.binding k = m.binding k)
    (ha : (∀ b, m'.binding hw_addr = some b → isMaxLong w b.lease_time = true) →
      deadlines hw_addr l' = []) : Timed w l' m' := by
  intro k hd
  by_cases hk : k = hw_addr
  · rw [hk] at hd ⊢
    exact ha hd
  · rw [hm k hk] at hd
    rw [hl k hk]
    exact h k hd

theorem Matches.timed (h : Matches l m) : Timed w l m := by
  intro chaddr hma
  rw [h chaddr]
  cases hb : m.binding chaddr with
  | none => rfl
  | some b => exact if_pos ((isMaxLong_iff _).mp (hma b hb)).2

variable (hv : Valid l)
  (hke : ∀ b, m.binding user.chaddr = some b → b.chaddr = user.chaddr)
include hv hke

theorem deadlines_handle_write_of_ne (k : Bytes 6) (hk : k ≠ user.chaddr) :
    deadlines k (written w l m user) = deadlines k l := by
  cases ho : m.binding user.chaddr with
  | none =>
    rw [handle_writeCall_of_none ho]
    exact deadlines_handleInsert_of_ne hv hk
  | some b =>
    have hkb : k ≠ b.chaddr := fun heq => hk (heq.trans (hke b ho))
    rw [handle_writeCall_of_some ho]
    split_ifs
    · rfl
    · rw [deadlines_handleInsert_of_ne (valid_handleDelete hv b) hk,
        deadlines_handleDelete_of_ne hkb]

theorem Timed.deadlines_written (h : Timed w l m) :
    deadlines user.chaddr (written w l m user) =
      match m.binding user.chaddr with
      | some b => if user.lease_time = b.lease_time then deadlines user.chaddr l else armed w user
      | none => armed w user := by
  cases ho : m.binding user.chaddr with
  | none =>
    rw [handle_writeCall_of_none ho]
    exact deadlines_handleInsert hv (h _ fun b hb => absurd (ho.symm.trans hb) (by simp))
  | some b =>
    rw [handle_writeCall_of_some ho]
    dsimp only
    split_ifs
    · rfl
    · -- The old timeout goes before the new one comes.
      have hch := hke b ho
      refine deadlines_handleInsert (valid_handleDelete hv b) ?_
      rw [← hch] at ho ⊢
      exact deadlines_handleDelete hv (h.deadlines_eq_nil ho)

theorem Timed.write (h : Timed w l m) (hr : m.HasRoom user.chaddr) :
    Timed w (written w l m user) (m.write user) := by
  refine h.of_at (deadlines_handle_write_of_ne hv hke) (binding_write_of_ne hr) ?_
  rw [binding_write hr, if_pos rfl, h.deadlines_written hv hke]
  intro hall
  have hi : armed w user = [] := if_pos (hall user rfl)
  cases ho : m.binding user.chaddr with
  | none => exact hi
  | some b =>
    dsimp only
    split_ifs with hls
    · exact h.deadlines_eq_nil ho (hls ▸ hall user rfl)
    · exact hi

theorem Timed.deadlines_erased (h : Timed w l m) :
    let l' := ((Change.erase user).calls m).foldl (handle w true e) l
    deadlines user.chaddr l' = [] ∧ ∀ k, k ≠ user.chaddr → deadlines k l' = deadlines k l := by
  have hb : m.binding user.chaddr = (m.lookup user.chaddr).map (decode e) := rfl
  rw [Change.calls]
  cases hlk : m.lookup user.chaddr with rw [hlk] at hb
  | none => exact ⟨h _ fun b hb' => absurd (hb.symm.trans hb') (by simp), fun _ _ => rfl⟩
  | some old =>
    have hch := hke _ hb
    rw [toList_some, flatMap_singleton]
    split_ifs
    · refine ⟨?_, fun k hk => deadlines_handleDelete_of_ne (hch ▸ hk)⟩
      rw [← hch] at hb ⊢
      exact deadlines_handleDelete hv (h.deadlines_eq_nil hb)
    · -- The binding is written without its source guard before it is deleted.
      obtain ⟨u, hu, hc⟩ : ∃ u : UserItem, { user with have_sg := 0 } = u ∧
          user.chaddr = u.chaddr := ⟨_, rfl, rfl⟩
      have hdl : ∀ l', handle w true e l' (.handleDelete (u.encode e)) =
          npdDhcpSnpHandleDelete w true u l' := fun l' => by rw [handle, decode_encode]
      simp only [hu, foldl_cons, foldl_nil, hdl]
      rw [hc] at hlk hb hke ⊢
      have hr : m.HasRoom u.chaddr := .inl (mem_keys_of_binding hb)
      have ht := h.write hv hke hr
      have hl := deadlines_handle_write_of_ne (w := w) hv hke
      have hv' : Valid (written w l m u) := valid_handle hv _
      rw [written, hlk, writeCall] at ht hl hv'
      refine ⟨deadlines_handleDelete hv' (ht.deadlines_eq_nil ?_), fun k hk => ?_⟩
      · rw [binding_write hr, if_pos rfl]
      · rw [deadlines_handleDelete_of_ne hk, hl k hk]

theorem Timed.erase (h : Timed w l m) :
    Timed w (((Change.erase user).calls m).foldl (handle w true e) l) (m.erase user.chaddr) := by
  obtain ⟨ha, ho⟩ := h.deadlines_erased hv hke
  exact h.of_at ho binding_erase_of_ne fun _ => ha

theorem Matches.write_iff (h : Matches l m) (hr : m.HasRoom user.chaddr) :
    Matches (written w l m user) (m.write user) ↔
      LeaseKept w (m.binding user.chaddr) user.sys_escape user.lease_time := by
  rw [h.iff_at (deadlines_handle_write_of_ne hv hke) (binding_write_of_ne hr),
    binding_write hr, if_pos rfl, h.timed.deadlines_written hv hke, h user.chaddr]
  cases m.binding user.chaddr with
  | none => exact armed_eq_due_iff
  | some b =>
    rw [LeaseKept]
    dsimp only
    split_ifs with hls
    · exact due_same_lease_iff hls
    · exact armed_eq_due_iff

theorem Matches.erase (h : Matches l m) :
    Matches (((Change.erase user).calls m).foldl (handle w true e) l) (m.erase user.chaddr) := by
  obtain ⟨ha, ho⟩ := h.timed.deadlines_erased (w := w) hv hke
  rw [h.iff_at ho binding_erase_of_ne, binding_erase, if_pos rfl]
  exact ha

end

def TimersMatch (s : SnpTable e) : Prop :=
  Matches (ndsTimeout w s.table) s.bindings

section

open TimerList

variable {e : Endian} {w : SizeT} {env : SnpEnv} {call : TblCall} {s s' : SnpTable e}

theorem TblCall.Made.ndsTimeout_eq (h : call.Made env s s') :
    ndsTimeout w s'.table =
      ((call.change env s.bindings).calls s.bindings).foldl (handle w true e)
        (ndsTimeout w s.table) := by
  rw [ndsTimeout, h.calls, foldl_append]
  rfl

theorem TblCall.Made.timersMatch_iff (h : call.Made env s s') (hs : TimersMatch w s) :
    TimersMatch w s' ↔ (call.change env s.bindings).Kept w s.bindings := by
  have hv := valid_ndsTimeout w s.table
  rw [TimersMatch, h.ndsTimeout_eq, h.bindings]
  rcases call.change_cases env s.bindings with hc | ⟨user, -, hc⟩ | ⟨user, hc, hr, -⟩
  · rw [hc]
    exact iff_of_true hs trivial
  · rw [hc]
    exact iff_of_true (Matches.erase hv (fun b => s.holds.chaddr_eq) hs) trivial
  · rw [hc]
    exact Matches.write_iff hv (fun b => s.holds.chaddr_eq) hs hr

theorem TblCall.Made.timed (h : call.Made env s s')
    (hs : Timed w (ndsTimeout w s.table) s.bindings) :
    Timed w (ndsTimeout w s'.table) s'.bindings := by
  have hv := valid_ndsTimeout w s.table
  rw [h.ndsTimeout_eq, h.bindings]
  rcases call.change_cases env s.bindings with hc | ⟨user, -, hc⟩ | ⟨user, hc, hr, -⟩
  · rw [hc]
    exact hs
  · rw [hc]
    exact hs.erase hv fun b => s.holds.chaddr_eq
  · rw [hc]
    exact hs.write hv (fun b => s.holds.chaddr_eq) hr

end

/-! ## The timer thread -/

def timerCall (now : UInt32) (find : UserItem → Option UserItem) (nds_timeout : List Timeout) :
    TblCall :=
  match npdDhcpSnpGetTimeout nds_timeout with
  | none => .keep
  | some entry =>
    if now = 0 ∨ now.toNat < entry.deadline then .keep
    else
      match find { zero with chaddr := entry.key } with
      | none => .keep
      | some lease => .delete lease

def timerRound (env : SnpEnv) (t : BindingTable e) :
    Except Fault (BindingTable e × ReturnCode) :=
  (timerCall env.now (npdDhcpSnpTblItemFind env t) (ndsTimeout w t)).run env t

def timerRounds {e : Endian} (w : SizeT) (env : SnpEnv) :
    ℕ → BindingTable e → Except Fault (BindingTable e)
  | 0, t => .ok t
  | n + 1, t => do
    let (t, _) ← timerRound w env t
    timerRounds w env n t

def Late (now : UInt32) (nds_timeout : List Timeout) : Bool :=
  (npdDhcpSnpGetTimeout nds_timeout).any (·.deadline ≤ now.toNat)

/-- The inner loop of `npd_dhcp_snp_timer_thread`, with `none` where it has not ended after the
rounds it is given. -/
def timerLoop {e : Endian} (w : SizeT) (env : SnpEnv) :
    ℕ → BindingTable e → Except Fault (Option (BindingTable e))
  | 0, t => .ok (if Late env.now (ndsTimeout w t) then none else some t)
  | n + 1, t =>
    if Late env.now (ndsTimeout w t) then do
      let (t, _) ← timerRound w env t
      timerLoop w env n t
    else .ok (some t)

def Expired (now : UInt32) (b : UserItem) : Prop :=
  b.lease_time ≠ infiniteLease ∧ b.sys_escape.toNat + b.lease_time.toNat ≤ now.toNat

/-- The timer thread, whenever it looks at the clock, deletes the bindings that have run out and no
others, in a round for each binding at most. -/
def TimerExact (s : SnpTable e) : Prop :=
  ∀ env : SnpEnv, env.now ≠ 0 → ∀ n, s.bindings.keys.card ≤ n →
    ∃ s' : SnpTable e, timerRounds w env n s.table = .ok s'.table ∧
      ∀ chaddr b, s'.bindings.binding chaddr = some b ↔
        s.bindings.binding chaddr = some b ∧ ¬Expired env.now b

section

open TimerList

variable {e : Endian} {w : SizeT} {env : SnpEnv} {s s' : SnpTable e} {n : ℕ}

theorem timerRound_eq (w : SizeT) (env : SnpEnv) (s : SnpTable e) :
    timerRound w env s.table =
      (timerCall env.now s.bindings.find (ndsTimeout w s.table)).run env s.table := by
  have hf : npdDhcpSnpTblItemFind env s.table = s.bindings.find :=
    funext (s.holds.find_eq env)
  rw [timerRound, hf]

theorem timerCall_cases (now : UInt32) (s : SnpTable e) (l : List Timeout) :
    timerCall now s.bindings.find l = .keep ∨
      ∃ b, s.bindings.binding b.chaddr = some b ∧ timerCall now s.bindings.find l = .delete b := by
  unfold timerCall
  cases npdDhcpSnpGetTimeout l with
  | none => exact .inl rfl
  | some entry =>
    dsimp only
    split_ifs
    · exact .inl rfl
    · cases hf : s.bindings.find { zero with chaddr := entry.key } with
      | none => exact .inl rfl
      | some lease => exact .inr ⟨lease, s.stored hf, rfl⟩

theorem timerRounds_of_keep (h : timerCall env.now s.bindings.find (ndsTimeout w s.table) = .keep)
    (n : ℕ) : timerRounds w env n s.table = .ok s.table := by
  induction n with
  | zero => rfl
  | succ n ih =>
    rw [timerRounds, timerRound_eq, h]
    exact ih

theorem late_eq_false_iff {now : UInt32} {l : List Timeout} (h : Valid l) :
    Late now l = false ↔ ∀ chaddr, ∀ d ∈ deadlines chaddr l, now.toNat < d := by
  cases l with
  | nil => exact iff_of_true rfl fun _ _ hd => absurd hd not_mem_nil
  | cons node l =>
    have hla : Late now (node :: l) = false ↔ now.toNat < node.deadline := by
      simp [Late, npdDhcpSnpGetTimeout]
    rw [hla]
    constructor
    · exact fun hlt chaddr d hd => hlt.trans_le (h.head_le (mem_deadlines.mp hd))
    · exact fun hall => hall node.key _ (mem_deadlines.mpr mem_cons_self)

section

variable (h : Timed w (ndsTimeout w s.table) s.bindings) (hn : env.now ≠ 0)
include h hn

/-- The first timeout has run out: its binding is deleted and the timeout with it. -/
theorem timerRound_late
    (hla : Late env.now (ndsTimeout w s.table) = true) :
    ∃ (s' : SnpTable e) (b : UserItem) (node : Timeout) (l : List Timeout) (ret : ReturnCode),
      timerRound w env s.table = .ok (s'.table, ret) ∧
      s.bindings.binding b.chaddr = some b ∧ s'.bindings = s.bindings.erase b.chaddr ∧
      ndsTimeout w s.table = node :: l ∧ ndsTimeout w s'.table = l ∧ node.key = b.chaddr ∧
      node.deadline ≤ env.now.toNat ∧ Timed w l s'.bindings := by
  cases hl : ndsTimeout w s.table with
  | nil => simp [hl, Late, npdDhcpSnpGetTimeout] at hla
  | cons node l =>
    have hle : node.deadline ≤ env.now.toNat := by simpa [hl, Late, npdDhcpSnpGetTimeout] using hla
    obtain ⟨b, hb, hma⟩ : ∃ b, s.bindings.binding node.key = some b ∧
        ¬isMaxLong w b.lease_time = true := by
      by_contra hno
      have hd := mem_deadlines.mpr (hl ▸ mem_cons_self : node ∈ ndsTimeout w s.table)
      rw [h node.key fun b hb => by_contra fun hma => hno ⟨b, hb, hma⟩] at hd
      exact not_mem_nil hd
    have hch := s.holds.chaddr_eq hb
    have hst := s.stored hb
    obtain ⟨s', hrun⟩ := (TblCall.delete b).exists_run env s
    have hmk := TblCall.made_of_run hrun
    have hca : timerCall env.now s.bindings.find (node :: l) = .delete b := by
      have hf : s.bindings.find { zero with chaddr := node.key } = some b := hb
      rw [timerCall, npdDhcpSnpGetTimeout, head?_cons]
      dsimp only
      rw [if_neg (not_or.mpr ⟨hn, not_lt.mpr hle⟩), hf]
    have hl' : ndsTimeout w s'.table = l := by
      rw [hmk.ndsTimeout_eq]
      change ((Change.erase b).calls s.bindings).foldl _ _ = l
      rw [handle_eraseCalls hst, hl, npdDhcpSnpHandleDelete, if_pos ⟨rfl, hma⟩, hch,
        npdDhcpSnpCancelTimeout, cancel, eraseP_cons_of_pos (by simp)]
    refine ⟨s', b, node, l, (TblCall.delete b).code env s.bindings, ?_, hst, hmk.bindings, rfl, hl',
      hch.symm, hle, ?_⟩
    · rw [timerRound_eq, hl, hca]
      exact hrun
    · rw [← hl']
      exact hmk.timed h

theorem Timed.timerLoop
    (hle : (ndsTimeout w s.table).length ≤ n) :
    ∃ s' : SnpTable e, timerLoop w env n s.table = .ok (some s'.table) ∧
      timerRounds w env n s.table = .ok s'.table ∧
      ∀ chaddr b, s'.bindings.binding chaddr = some b ↔ s.bindings.binding chaddr = some b ∧
        ∀ d ∈ deadlines chaddr (ndsTimeout w s.table), env.now.toNat < d := by
  have hv := valid_ndsTimeout w s.table
  -- Each round deletes a binding and the first timeout, so a round for each of them is enough.
  induction n generalizing s with
  | zero =>
    have hl := eq_nil_of_length_eq_zero (Nat.le_zero.mp hle)
    refine ⟨s, ?_, rfl, fun chaddr b => ?_⟩
    · rw [Dhcp.timerLoop, hl]
      rfl
    · rw [hl]
      exact (and_iff_left fun d hd => absurd hd not_mem_nil).symm
  | succ n ih =>
    rw [Dhcp.timerLoop, timerRounds]
    cases hla : Late env.now (ndsTimeout w s.table) with
    | false =>
      have hk : timerCall env.now s.bindings.find (ndsTimeout w s.table) = .keep := by
        unfold timerCall
        cases hg : npdDhcpSnpGetTimeout (ndsTimeout w s.table) with
        | none => rfl
        | some node => exact if_pos (.inr (by simpa [Late, hg] using hla))
      refine ⟨s, rfl, ?_, fun chaddr b => ?_⟩
      · rw [timerRound_eq, hk]
        exact timerRounds_of_keep hk n
      · exact (and_iff_left ((late_eq_false_iff hv).mp hla chaddr)).symm
    | true =>
      obtain ⟨s₁, b, node, l, ret, hr, hb, hbd, hl, hl₁, hke, hdl, ht⟩ := timerRound_late h hn hla
      rw [← hl₁] at ht
      rw [hl, length_cons, ← hl₁] at hle
      obtain ⟨s', hlp, hrs, hlf⟩ := ih ht (Nat.le_of_succ_le_succ hle) (valid_ndsTimeout w _)
      refine ⟨s', ?_, ?_, fun chaddr b' => ?_⟩
      · rw [if_pos rfl, hr]
        exact hlp
      · rw [hr]
        exact hrs
      rw [hlf, hbd, Bindings.binding_erase, hl₁, hl]
      split_ifs with hch
      · refine iff_of_false (by simp) fun hbo => ?_
        have := hbo.2 node.deadline (mem_deadlines.mpr (by rw [hch, ← hke]; exact mem_cons_self))
        omega
      · have hne : ¬node.key = chaddr := fun hk => hch (hk.symm.trans hke)
        rw [deadlines, deadlines, filter_cons_of_neg (by simpa using hne)]

end

theorem TimersMatch.timerExact (h : TimersMatch w s) : TimerExact w s := by
  -- There are no more timeouts than bindings.
  have hle : (ndsTimeout w s.table).length ≤ s.bindings.keys.card := by
    have hv := valid_ndsTimeout w s.table
    rw [← length_map Timer.key, ← toFinset_card_of_nodup hv.nodup]
    refine Finset.card_le_card fun chaddr hm => ?_
    obtain ⟨node, hn, rfl⟩ := List.mem_map.mp (mem_toFinset.mp hm)
    have hd := mem_deadlines.mpr hn
    rw [h node.key] at hd
    cases hb : s.bindings.binding node.key with
    | none =>
      rw [hb] at hd
      exact absurd hd not_mem_nil
    | some b => exact Bindings.mem_keys_of_binding hb
  intro env hnw n hn
  obtain ⟨s', -, hr, hlf⟩ := Timed.timerLoop (Matches.timed h) hnw (hle.trans hn)
  refine ⟨s', hr, fun chaddr b => (hlf chaddr b).trans (and_congr_right fun hb => ?_)⟩
  rw [h chaddr, hb, due_some, Expired]
  split_ifs with hi
  · simp [hi]
  · simp [hi]

end

end Chanos.Dhcp

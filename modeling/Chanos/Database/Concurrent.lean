import Chanos.Database.Exchange
import Chanos.Database.Framing

/-!
# Two writers

A master and a slave have equal copies of one table, and both make local calls on it. What a call
sends is received by the other node in order. No entry is lost when each insertion takes an id that
no message on its way is about (`concurrent_writers`).
-/

namespace Chanos.Database

open Lib List Option Function SyncOp Relation

variable {σ σ' : Schema}

def SyncMsg.About (m : SyncMsg) (id : ℕ) : Prop :=
  m.header.entry_num ≠ 0 ∧ m.header.start_index.toNat = id

instance (m : SyncMsg) (id : ℕ) : Decidable (m.About id) :=
  inferInstanceAs (Decidable (_ ∧ _))

structure Packet where
  msg : SyncMsg
  origin : ℕ

open Packet

structure Node (σ : Schema) where
  table : Table σ
  origin : ℕ → Option ℕ

open Node

def Node.Has (n : Node σ) (number : ℕ) : Prop :=
  ∃ id, (n.table.entries id).exist = true ∧ n.origin id = some number

structure Env.Syncs (env : Env) (relay : Bool) : Prop where
  have_sync : env.have_sync = true
  platform_db_sync : env.platform_db_sync.isSome = true
  platform_relay_flag : env.platform_relay_flag = relay

namespace Effect

variable {n : ℕ} (origin : ℕ → Option ℕ)

def number (born : ℕ) : Effect n → ℕ
  | .insert _ _ => born
  | .update id _ | .delete id => (origin id).getD 0
  | .none => 0

def origins (born : ℕ) : Effect n → ℕ → Option ℕ
  | .insert id _ => Function.update origin id (some born)
  | .delete id => Function.update origin id Option.none
  | .update _ _ | .none => origin

def bornAfter (born : ℕ) : Effect n → ℕ
  | .insert _ _ => born + 1
  | _ => born

def liveAfter (born : ℕ) (live : Finset ℕ) : Effect n → Finset ℕ
  | .insert _ _ => Insert.insert born live
  | .delete id => live.erase ((origin id).getD 0)
  | .update _ _ | .none => live

end Effect

def sentSince (t t' : Table σ) : List SyncMsg :=
  (t'.sent.drop t.sent.length).map SyncCall.msg

inductive Node.Call (env : Env) (born : ℕ) (n : Node σ) :
    Effect σ.entry_size → Node σ → List Packet → Prop
  | mk {op : LocalOp σ.entry_size} {t' : Table σ} {r : ℤ}
      (hrun : op.run env n.table = .ok (t', r)) :
    Call env born n (op.effect env n.table)
      ⟨t', (op.effect env n.table).origins n.origin born⟩
      ((sentSince n.table t').map fun m => ⟨m, (op.effect env n.table).number n.origin born⟩)

inductive Node.Recv (host : Host) (env : Env) (n : Node σ) (p : Packet) :
    Node σ → List Packet → Prop
  | mk {fuel : ℕ} {code : ℤ} {t' : Table σ}
      (hrecv : dbtableRecv host env fuel ⟨[⟨σ, n.table⟩], 0⟩ p.msg.wire =
        some (.ok (⟨[⟨σ, t'⟩], 0⟩, code))) :
    Recv host env n p
      ⟨t', fun id =>
        if p.msg.About id then if (t'.entries id).exist then some p.origin else none
        else n.origin id⟩
      ((sentSince n.table t').map fun m => ⟨m, p.origin⟩)

/-! ## The system -/

structure Pair (σ σ' : Schema) where
  master : Node σ
  slave : Node σ'
  down : List Packet
  up : List Packet
  born : ℕ
  live : Finset ℕ

/-- Two copies with nothing on its way. -/
def Pair.start (tm : Table σ) (ts : Table σ') : Pair σ σ' where
  master := ⟨tm, fun id => if (tm.entries id).exist then some id else none⟩
  slave := ⟨ts, fun id => if (ts.entries id).exist then some id else none⟩
  down := []
  up := []
  born := σ.entry_num
  live := (Finset.range σ.entry_num).filter fun id => (tm.entries id).exist

/-- One step of the system: a local call, or a message that is received. -/
inductive Pair.Step (hm hs : Host) (allow : Pair σ σ' → ℕ → Prop) (s : Pair σ σ') :
    Pair σ σ' → Prop
  | masterCall {env : Env} {eff : Effect σ.entry_size} {n : Node σ} {sent : List Packet}
      (henv : env.Syncs true) (hca : s.master.Call env s.born eff n sent)
      (hallow : ∀ id d, eff = .insert id d → allow s id) :
    Pair.Step hm hs allow s
      { s with
        master := n
        down := s.down ++ sent
        born := eff.bornAfter s.born
        live := eff.liveAfter s.master.origin s.born s.live }
  | slaveCall {env : Env} {eff : Effect σ'.entry_size} {n : Node σ'} {sent : List Packet}
      (henv : env.Syncs false) (hca : s.slave.Call env s.born eff n sent)
      (hallow : ∀ id d, eff = .insert id d → allow s id) :
    Pair.Step hm hs allow s
      { s with
        slave := n
        up := s.up ++ sent
        born := eff.bornAfter s.born
        live := eff.liveAfter s.slave.origin s.born s.live }
  | masterRecv {env : Env} {p : Packet} {rest : List Packet} {n : Node σ} {sent : List Packet}
      (henv : env.Syncs true) (hup : s.up = p :: rest) (hrecv : s.master.Recv hm env p n sent) :
    Pair.Step hm hs allow s { s with master := n, up := rest, down := s.down ++ sent }
  | slaveRecv {env : Env} {p : Packet} {rest : List Packet} {n : Node σ'} {sent : List Packet}
      (henv : env.Syncs false) (hdown : s.down = p :: rest)
      (hrecv : s.slave.Recv hs env p n sent) :
    Pair.Step hm hs allow s { s with slave := n, down := rest, up := s.up ++ sent }

/-- No message on its way is about the id. -/
def Pair.Idle (s : Pair σ σ') (id : ℕ) : Prop := ∀ p ∈ s.down ++ s.up, ¬ p.msg.About id

/-! ## What is on its way -/

section

variable {m : SyncMsg} {a : Option (ℕ × RegMsg (List UInt8))} {ps : List Packet}
  {as : List (Option (ℕ × RegMsg (List UInt8)))} {id : ℕ}

theorem start_index_toNat (op : SyncOp) (hlt : id < σ.entry_num) (num : ℕ) :
    (syncHeader σ op id num).start_index.toNat = id :=
  UInt32.toNat_ofNat_of_lt' (hlt.trans (σ.entry_num_lt.trans (by decide)))

theorem Carries.about (h : Carries σ m a) (ha : m.About id) :
    ∃ r, a = some (id, r) ∧ (r = .del ↔ m.header.op = itemDel.code) := by
  cases h with
  | @entry op entry_id hop hlt d =>
    obtain rfl : entry_id = id := (start_index_toNat op hlt 1).symm.trans ha.2
    refine ⟨_, rfl, ?_⟩
    change _ ↔ op.code = itemDel.code
    rcases hop with rfl | rfl | rfl
    · exact ⟨nofun, nofun⟩
    · exact ⟨nofun, nofun⟩
    · exact ⟨fun _ => rfl, fun _ => rfl⟩
  | empty hle => exact absurd rfl ha.1

theorem Carries.not_about (h : Carries σ m a) (ha : ¬ m.About id) : onRegister id [a] = [] := by
  cases h with
  | @entry op entry_id hop hlt d =>
    have hne : entry_id ≠ id := by
      intro heq
      refine ha ⟨?_, (start_index_toNat op hlt 1).trans heq⟩
      change UInt32.ofNat 1 ≠ 0
      decide
    rw [onRegister_cons_of_ne hne]
    rfl
  | empty hle => rfl

theorem exists_mem_onRegister (h : Forall₂ (Carries σ) (ps.map msg) as) {p : Packet}
    (hp : p ∈ ps) (ha : p.msg.About id) :
    ∃ r ∈ onRegister id as, r = .del ↔ p.msg.header.op = itemDel.code := by
  induction ps generalizing as with
  | nil => exact absurd hp not_mem_nil
  | cons q ps ih =>
    rw [map_cons] at h
    cases h with
    | @cons _ a _ as hq hps =>
      rw [onRegister_cons]
      rcases mem_cons.mp hp with rfl | hp
      · obtain ⟨r, rfl, hd⟩ := hq.about ha
        refine ⟨r, mem_append_left _ ?_, hd⟩
        rw [onRegister_cons_self]
        exact mem_cons_self
      · obtain ⟨r, hr, hd⟩ := ih hps hp
        exact ⟨r, mem_append_right _ hr, hd⟩

theorem onRegister_eq_nil (h : Forall₂ (Carries σ) (ps.map msg) as)
    (hi : ∀ p ∈ ps, ¬ p.msg.About id) : onRegister id as = [] := by
  induction ps generalizing as with
  | nil =>
    cases h
    rfl
  | cons q ps ih =>
    rw [map_cons] at h
    cases h with
    | @cons _ a _ as hq hps =>
      rw [onRegister_cons, hq.not_about (hi q mem_cons_self),
        ih hps fun p hp => hi p (mem_cons_of_mem _ hp)]
      rfl

end

/-! ## Insertions that are not lost -/

/-- The entry of an insertion is the one with this id: one of the two copies has it, neither has
the entry of another insertion there, and what is on its way about the id is about this entry and
does not delete it. -/
structure Keeps (o o' : ℕ → Option ℕ) (flight : List Packet) (number id : ℕ) : Prop where
  home : o id = some number ∨ o' id = some number
  mine : ∀ k, o id = some k → k = number
  other : ∀ k, o' id = some k → k = number
  flight : ∀ p ∈ flight, p.msg.About id →
    p.origin = number ∧ p.msg.header.op ≠ itemDel.code

section

variable {o o' o₁ : ℕ → Option ℕ} {flight sent : List Packet} {number id : ℕ}

theorem Keeps.symm (h : Keeps o o' flight number id) : Keeps o' o flight number id :=
  ⟨h.home.symm, h.other, h.mine, h.flight⟩

theorem Keeps.mono (h : Keeps o o' flight number id) {flight' : List Packet}
    (hsu : ∀ p ∈ flight', p ∈ flight) : Keeps o o' flight' number id :=
  ⟨h.home, h.mine, h.other, fun p hp => h.flight p (hsu p hp)⟩

theorem mem_append_swap {down up sent : List Packet} (q : Packet) (h : q ∈ down ++ sent ++ up) :
    q ∈ down ++ up ++ sent := by
  rw [mem_append, mem_append] at h ⊢
  exact or_right_comm.mp h

theorem Keeps.extend (h : Keeps o o' flight number id) (ho : o₁ id = o id)
    (hse : ∀ p ∈ sent, p.msg.About id → p.origin = number ∧ p.msg.header.op ≠ itemDel.code) :
    Keeps o₁ o' (flight ++ sent) number id := by
  refine ⟨ho ▸ h.home, ho ▸ h.mine, h.other, fun p hp => ?_⟩
  rcases mem_append.mp hp with hp | hp
  · exact h.flight p hp
  · exact hse p hp

/-! ## Steps of a node -/

structure Node.Ok (n : Node σ) : Prop where
  occupancy : Occupancy n.table.toCore
  origin : ∀ id, (n.origin id).isSome = (n.table.entries id).exist

theorem Node.Ok.origin_eq_none {n : Node σ} (hok : n.Ok) {id : ℕ}
    (h : synced n.table.toCore id = none) : n.origin id = none := by
  rw [← isNone_iff_eq_none, ← isSome_eq_false_iff, hok.origin, ← isSome_synced hok.occupancy, h]
  rfl

variable {host : Host} {env : Env} {relay local_flag : Bool} {born : ℕ} {n n' : Node σ}
  {eff : Effect σ.entry_size} {p : Packet} {live : Finset ℕ}

theorem sentSince_eq {t t' : Table σ} {site : Option (ℕ × ℕ)} (hmode : σ.sync_mode ≠ DB_SYNC_NONE)
    (henv : env.Syncs relay) (he : HasEffect env local_flag t site eff t') :
    sentSince t t' =
      if local_flag || relay then eff.msgs σ (dbTableGetEntry t.toCore) else [] := by
  have hsn : env.sends σ local_flag = (local_flag || relay) := by
    rw [Env.sends, henv.have_sync, bne_iff_ne.mpr hmode, henv.platform_relay_flag]
    rfl
  rw [sentSince, he.sent, drop_left, Env.emit, hsn]
  split_ifs
  · rw [Env.calls, if_pos henv.platform_db_sync, List.map_map]
    exact map_id _
  · rfl

def Announced (n n' : Node σ) (sent : List Packet) : Prop :=
  ∃ as, Forall₂ (Carries σ) (sent.map msg) as ∧
    ∀ id, onRegister id as = announce (synced n.table.toCore id) (synced n'.table.toCore id)

theorem announced_of_msgs {msgs : List SyncMsg} {number : ℕ}
    {as : List (Option (ℕ × RegMsg (List UInt8)))} (has : List.Forall₂ (Carries σ) msgs as)
    (ho : ∀ id, onRegister id as =
      announce (synced n.table.toCore id) (synced n'.table.toCore id)) :
    Announced n n' (msgs.map fun m => ⟨m, number⟩) := by
  refine ⟨as, ?_, ho⟩
  rw [List.map_map]
  exact (List.map_id msgs).symm ▸ has

theorem Announced.about (h : Announced n n' sent) (hp : p ∈ sent) {id : ℕ}
    (ha : p.msg.About id) :
    synced n.table.toCore id ≠ synced n'.table.toCore id ∧
      ((synced n'.table.toCore id).isSome = true → p.msg.header.op ≠ itemDel.code) := by
  obtain ⟨as, has, ho⟩ := h
  obtain ⟨r, hr, hd⟩ := exists_mem_onRegister has hp ha
  rw [ho] at hr
  obtain ⟨hne, hg⟩ := of_mem_announce hr
  refine ⟨hne, fun hso hop => ?_⟩
  rw [hg.mp (hd.mpr hop)] at hso
  exact Bool.false_ne_true hso

theorem Node.Ok.exists_origin (hok : n.Ok)
    (hso : (dbTableGetEntry n.table.toCore id).isSome = true) : ∃ k, n.origin id = some k := by
  rw [hok.occupancy.isSome_get, ← hok.origin] at hso
  exact isSome_iff_exists.mp hso

section

variable (hmode : σ.sync_mode ≠ DB_SYNC_NONE) (henv : env.Syncs relay) (hok : n.Ok)
include hmode henv hok

theorem Node.Call.spec (h : n.Call env born eff n' sent) :
    Occupancy n'.table.toCore ∧
      eff.Valid σ.entry_num (dbTableGetEntry n.table.toCore) ∧
      dbTableGetEntry n'.table.toCore = eff.apply (dbTableGetEntry n.table.toCore) ∧
      n'.origin = eff.origins n.origin born ∧
      (∀ p ∈ sent, p.origin = eff.number n.origin born) ∧ Announced n n' sent := by
  obtain ⟨hrun⟩ := h
  have he := LocalOp.run_hasEffect _ hok.occupancy hrun
  obtain ⟨as, has, ho⟩ := he.core.announces hok.occupancy
  refine ⟨he.core.occupancy hok.occupancy, he.core.effect_valid hok.occupancy,
    he.core.get_eq hok.occupancy, rfl, ?_, ?_⟩
  · intro p hp
    obtain ⟨m, -, rfl⟩ := mem_map.mp hp
    rfl
  · rw [sentSince_eq hmode henv he, Bool.true_or, if_pos rfl]
    exact announced_of_msgs has ho

theorem Node.Call.synced_eq_none {id : ℕ} {d : σ.Data} (h : n.Call env born (.insert id d) n' sent) :
    synced n.table.toCore id = none :=
  synced_of_get (h.spec hmode henv hok).2.1.2

section

variable (h : n.Call env born eff n' sent)
include h

theorem Node.Call.ok : n'.Ok := by
  obtain ⟨hoc, hv, hget, hor, -, -⟩ := h.spec hmode henv hok
  refine ⟨hoc, fun id => ?_⟩
  rw [← hoc.isSome_get, hor, hget]
  have ho := hok.origin id
  rw [← hok.occupancy.isSome_get] at ho
  cases eff with
  | none => exact ho
  | insert entry_id data | delete entry_id =>
    rw [Effect.origins, Effect.apply, update_apply, update_apply]
    split_ifs
    · rfl
    · exact ho
  | update entry_id data =>
    rw [Effect.origins, Effect.apply, update_apply]
    split_ifs with hid
    · rw [ho, hid]
      exact hv
    · exact ho

theorem Node.Call.keeps_unwritten
    (hget : eff.apply (dbTableGetEntry n.table.toCore) id = dbTableGetEntry n.table.toCore id)
    (ho : eff.origins n.origin born id = n.origin id)
    (hke : Keeps n.origin o' flight number id) :
    Keeps n'.origin o' (flight ++ sent) number id := by
  obtain ⟨-, -, hget', ho', -, ha⟩ := h.spec hmode henv hok
  refine hke.extend (by rw [ho', ho]) fun p hp hab => ?_
  have hsm : synced n'.table.toCore id = synced n.table.toCore id :=
    synced_of_get ((congrFun hget' id).trans hget)
  exact absurd hsm.symm (ha.about hp hab).1

theorem Node.Call.sent_about
    (hso : (eff.apply (dbTableGetEntry n.table.toCore) id).isSome = true)
    (hp : p ∈ sent) (ha : p.msg.About id) :
    p.origin = eff.number n.origin born ∧ p.msg.header.op ≠ itemDel.code := by
  obtain ⟨ho, -, hget, -, hn, han⟩ := h.spec hmode henv hok
  have ht : (synced n'.table.toCore id).isSome = true := by
    rw [isSome_synced ho, ← ho.isSome_get, hget]
    exact hso
  exact ⟨hn p hp, (han.about hp ha).2 ht⟩

theorem Node.Call.keeps
    (hli : ∀ k ∈ live, ∃ id, Keeps n.origin o' flight k id)
    (hfr : ∀ id d, eff = .insert id d → o' id = none ∧ ∀ p ∈ flight, ¬ p.msg.About id) :
    ∀ k ∈ eff.liveAfter n.origin born live, ∃ id, Keeps n'.origin o' (flight ++ sent) k id := by
  obtain ⟨-, hv, -, ho, -, -⟩ := h.spec hmode henv hok
  intro k hk
  cases eff with
  | none =>
    obtain ⟨id, hke⟩ := hli k hk
    exact ⟨id, h.keeps_unwritten hmode henv hok rfl rfl hke⟩
  | update i d =>
    obtain ⟨id, hke⟩ := hli k hk
    refine ⟨id, ?_⟩
    by_cases hid : id = i
    · -- The entry is rewritten and keeps its number, which is that of the message.
      subst hid
      obtain ⟨k', hk'⟩ := hok.exists_origin hv
      refine hke.extend (by rw [ho]; rfl) fun p hp ha => ?_
      have hso :
          ((Effect.update id d).apply (dbTableGetEntry n.table.toCore) id).isSome = true := by
        rw [Effect.apply, update_self]
        rfl
      obtain ⟨hn, hop⟩ := h.sent_about hmode henv hok hso hp ha
      refine ⟨?_, hop⟩
      rw [hn, Effect.number, hk', getD_some]
      exact hke.mine k' hk'
    · exact h.keeps_unwritten hmode henv hok (update_of_ne hid _ _) rfl hke
  | delete i =>
    obtain ⟨hne, hk⟩ := Finset.mem_erase.mp hk
    obtain ⟨id, hke⟩ := hli k hk
    have hid : id ≠ i := by
      rintro rfl
      obtain ⟨k', hk'⟩ := hok.exists_origin hv
      rw [hk', getD_some] at hne
      exact hne (hke.mine k' hk').symm
    exact ⟨id, h.keeps_unwritten hmode henv hok (update_of_ne hid _ _) (update_of_ne hid _ _) hke⟩
  | insert i d =>
    obtain ⟨hot, hi⟩ := hfr i d rfl
    obtain ⟨-, hno⟩ := hv
    have hmi : n.origin i = none := hok.origin_eq_none (synced_of_get hno)
    rcases Finset.mem_insert.mp hk with rfl | hk
    · -- The new entry is the only one with its id.
      have hse : n'.origin i = some k := by rw [ho, Effect.origins, update_self]
      have hso : ((Effect.insert i d).apply (dbTableGetEntry n.table.toCore) i).isSome = true := by
        rw [Effect.apply, update_self]
        rfl
      refine ⟨i, .inl hse, fun k' hk' => ?_, fun k' hk' => ?_, fun p hp ha => ?_⟩
      · exact mem_unique hk' hse
      · simp [hot] at hk'
      · rcases mem_append.mp hp with hp | hp
        · exact absurd ha (hi p hp)
        · exact h.sent_about hmode henv hok hso hp ha
    · -- The entry of an earlier insertion has another id, since neither copy has this one.
      obtain ⟨id, hke⟩ := hli k hk
      have hid : id ≠ i := by
        rintro rfl
        rcases hke.home with hh | hh
        · simp [hmi] at hh
        · simp [hot] at hh
      exact ⟨id, h.keeps_unwritten hmode henv hok (update_of_ne hid _ _) (update_of_ne hid _ _) hke⟩

end

variable {σ₀ : Schema} {a : Option (ℕ × RegMsg (List UInt8))} (hsm : SameWire σ₀ σ)
  (hfits : σ₀.Fits) (hp : Carries σ₀ p.msg a)
include hsm hfits hp

theorem Node.Recv.spec (h : n.Recv host env p n' sent) :
    n'.Ok ∧
      (∀ id, n'.origin id =
        if p.msg.About id then if (n'.table.entries id).exist then some p.origin else none
        else n.origin id) ∧
      (∀ id, synced n'.table.toCore id = receive (onRegister id [a]) (synced n.table.toCore id)) ∧
      (∀ q ∈ sent, q.origin = p.origin) ∧
      (relay = true → Announced n n' sent) ∧ (relay = false → sent = []) := by
  obtain ⟨hrecv⟩ := h
  rename_i fuel code t'
  have hr := Registry.holds_singleton n.table 0
  obtain ⟨fuel', code', t₁, eff, hca, he, hsy⟩ :=
    recv_carried hsm hfits host env hr hok.occupancy hp
  -- The call has one outcome.
  obtain rfl : t' = t₁ := by
    have ht := congrArg Registry.tables (Prod.mk.inj (Except.ok.inj (recv_unique hrecv hca))).1
    have htbl : (⟨σ, t'⟩ : AnyTable) = ⟨σ, t₁⟩ := head_eq_of_cons_eq ht
    exact eq_of_heq (AnyTable.mk.inj htbl).2
  have ho := he.core.occupancy hok.occupancy
  obtain ⟨as, has, hon⟩ := he.core.announces hok.occupancy
  refine ⟨⟨ho, fun id => ?_⟩, fun id => rfl, hsy, ?_, ?_, ?_⟩
  · dsimp only
    split_ifs with ha hex
    · exact hex.symm
    · exact (Bool.eq_false_iff.mpr hex).symm
    · -- The message does not touch the entry.
      have hsm : synced t'.toCore id = synced n.table.toCore id := by
        rw [hsy, hp.not_about ha]
        rfl
      rw [hok.origin, ← isSome_synced hok.occupancy, ← isSome_synced ho, hsm]
  · intro q hq
    obtain ⟨m, -, rfl⟩ := mem_map.mp hq
    rfl
  · rintro rfl
    rw [sentSince_eq hmode henv he, Bool.or_true, if_pos rfl]
    exact announced_of_msgs has hon
  · rintro rfl
    rw [sentSince_eq hmode henv he]
    rfl

theorem Node.Recv.keeps (h : n.Recv host env p n' sent)
    (hke : Keeps n.origin o' (p :: flight) number id) :
    Keeps n'.origin o' (flight ++ sent) number id := by
  obtain ⟨hok', hor, hsy, hnu, hre, hqt⟩ := h.spec hmode henv hok hsm hfits hp
  have hf : Keeps n.origin o' flight number id :=
    hke.mono fun q hq => mem_cons_of_mem _ hq
  have han : ∀ q ∈ sent, q.msg.About id →
      synced n.table.toCore id ≠ synced n'.table.toCore id ∧
        ((synced n'.table.toCore id).isSome = true → q.msg.header.op ≠ itemDel.code) := by
    intro q hq ha
    cases relay with
    | false =>
      rw [hqt rfl] at hq
      exact absurd hq not_mem_nil
    | true => exact (hre rfl).about hq ha
  have hid := hsy id
  by_cases ha : p.msg.About id
  · -- The message is about this entry, and does not delete it.
    obtain ⟨hn, hop⟩ := hke.flight p mem_cons_self ha
    obtain ⟨r, rfl, hd⟩ := hp.about ha
    rw [onRegister_cons_self] at hid
    have hsa : (synced n.table.toCore id).isSome = true ∨
        synced n.table.toCore id ≠ synced n'.table.toCore id →
        (synced n'.table.toCore id).isSome = true := by
      rw [hid]
      exact RegMsg.isSome_apply fun hr => hop (hd.mp hr)
    have ho : n'.origin id = if (n'.table.entries id).exist then some number else none := by
      rw [hor, if_pos ha, hn]
    refine ⟨?_, fun k hk => ?_, hke.other, fun q hq hq' => ?_⟩
    · refine hke.home.imp (fun hh => ?_) fun hh => hh
      have hb : (synced n.table.toCore id).isSome = true := by
        rw [isSome_synced hok.occupancy, ← hok.origin, hh]
        rfl
      have haf := hsa (.inl hb)
      rw [isSome_synced hok'.occupancy] at haf
      rw [ho, if_pos haf]
    · rw [ho] at hk
      split_ifs at hk
      exact (some.inj hk).symm
    · rcases mem_append.mp hq with hq | hq
      · exact hf.flight q hq hq'
      · obtain ⟨hne, hg⟩ := han q hq hq'
        exact ⟨(hnu q hq).trans hn, hg (hsa (.inr hne))⟩
  · -- The message is about another entry, which is all that it changes.
    rw [hp.not_about ha] at hid
    have ho : n'.origin id = n.origin id := by rw [hor, if_neg ha]
    exact hf.extend ho fun q hq hq' => absurd hid.symm (han q hq hq').1

end

end

/-! ## Agreement -/

/-- What holds in every state: the copies are consistent, and each id is a register whose copies
would become equal if no more calls were made. -/
structure Pair.Inv (s : Pair σ σ') : Prop where
  master : s.master.Ok
  slave : s.slave.Ok
  converging : ∃ down up, Forall₂ (Carries σ) (s.down.map msg) down ∧
    Forall₂ (Carries σ') (s.up.map msg) up ∧
    ∀ id, Converging (synced s.slave.table.toCore id) (onRegister id down) (onRegister id up)
      (synced s.master.table.toCore id)

open Pair

theorem Pair.inv_start {tm : Table σ} {ts : Table σ'} (hm : Occupancy tm.toCore)
    (hs : Occupancy ts.toCore) (hsy : synced ts.toCore = synced tm.toCore) :
    (start tm ts).Inv := by
  have hok : ∀ {σ : Schema} {t : Table σ}, Occupancy t.toCore →
      Ok ⟨t, fun id => if (t.entries id).exist then some id else none⟩ := by
    intro σ t ho
    refine ⟨ho, fun id => ?_⟩
    dsimp only
    split_ifs with hex
    · exact hex.symm
    · exact (Bool.eq_false_iff.mpr hex).symm
  refine ⟨hok hm, hok hs, [], [], .nil, .nil, fun id => ?_⟩
  change Converging (synced ts.toCore id) [] [] (synced tm.toCore id)
  rw [hsy]
  exact .start _

section

variable {hm hs : Host} {allow : Pair σ σ' → ℕ → Prop} {s s' : Pair σ σ'}

theorem Pair.Inv.synced_eq (hin : s.Inv) {id : ℕ} (hi : s.Idle id) :
    synced s.slave.table.toCore id = synced s.master.table.toCore id := by
  obtain ⟨down, up, hcd, hcu, hc⟩ := hin.converging
  have hid := hc id
  rw [onRegister_eq_nil hcd fun p hp => hi p (mem_append_left _ hp),
    onRegister_eq_nil hcu fun p hp => hi p (mem_append_right _ hp)] at hid
  exact hid.agree

def Pair.KeepsLive (s : Pair σ σ') : Prop :=
  ∀ k ∈ s.live, ∃ id, Keeps s.master.origin s.slave.origin (s.down ++ s.up) k id

theorem Pair.keepsLive_start {tm : Table σ} {ts : Table σ'} (hm : Occupancy tm.toCore)
    (hs : Occupancy ts.toCore) (hsy : synced ts.toCore = synced tm.toCore) :
    (start tm ts).KeepsLive := by
  intro k hk
  obtain ⟨-, hex⟩ := Finset.mem_filter.mp hk
  have hex' : (ts.entries k).exist = true :=
    (agree_of_synced hm hs (congrFun hsy k)).1.trans hex
  have hms : (start tm ts).master.origin k = some k := if_pos hex
  have hsl : (start tm ts).slave.origin k = some k := if_pos hex'
  refine ⟨k, .inl hms, fun k' hk' => ?_, fun k' hk' => ?_, fun p hp => ?_⟩
  · exact mem_unique hk' hms
  · exact mem_unique hk' hsl
  · exact absurd hp not_mem_nil

-- What both nodes have to know of the table for their messages to be understood.
variable (hdown : SameWire σ σ') (hup : SameWire σ' σ) (hfits : σ.Fits)
  (hmode : σ.sync_mode ≠ DB_SYNC_NONE) (hmode' : σ'.sync_mode ≠ DB_SYNC_NONE)

include hdown hup hfits hmode hmode'

theorem Pair.Inv.step (hi : s.Inv) (hse : Pair.Step hm hs allow s s') : s'.Inv := by
  obtain ⟨down, up, hcd, hc, hcn⟩ := hi.converging
  cases hse with
  | masterCall henv hca _ =>
    obtain ⟨-, -, -, -, -, as, has, ho⟩ := hca.spec hmode henv hi.master
    refine ⟨hca.ok hmode henv hi.master, hi.slave, down ++ as, up, ?_, hc, fun id => ?_⟩
    · rw [map_append]
      exact rel_append hcd has
    · rw [onRegister_append, ho]
      exact (hcn id).write_primary _
  | slaveCall henv hca _ =>
    obtain ⟨-, -, -, -, -, as, has, ho⟩ := hca.spec hmode' henv hi.slave
    refine ⟨hi.master, hca.ok hmode' henv hi.slave, down, up ++ as, hcd, ?_, fun id => ?_⟩
    · rw [map_append]
      exact rel_append hc has
    · rw [onRegister_append, ho]
      exact (hcn id).write_secondary _
  | masterRecv henv hn hrecv =>
    rw [hn, map_cons] at hc
    obtain ⟨a, up', ha, hc', rfl⟩ := forall₂_cons_left_iff.mp hc
    obtain ⟨hok, -, hsy, -, hr, -⟩ :=
      hrecv.spec hmode henv hi.master hup (hdown.fits hfits) ha
    obtain ⟨as, has, ho⟩ := hr rfl
    refine ⟨hok, hi.slave, down ++ as, up', ?_, hc', fun id => ?_⟩
    · rw [map_append]
      exact rel_append hcd has
    · rw [onRegister_append, ho, hsy]
      exact (hcn id).receive_up_on
  | slaveRecv henv hn hrecv =>
    rw [hn, map_cons] at hcd
    obtain ⟨a, down', ha, hcd', rfl⟩ := forall₂_cons_left_iff.mp hcd
    obtain ⟨hok, -, hsy, -, -, hq⟩ := hrecv.spec hmode' henv hi.slave hdown hfits ha
    refine ⟨hi.master, hok, down', up, hcd', ?_, fun id => ?_⟩
    · rw [hq rfl, append_nil]
      exact hc
    · rw [hsy]
      exact (hcn id).receive_down_on

theorem Pair.KeepsLive.step (hi : s.Inv) (hkp : s.KeepsLive)
    (hse : Pair.Step hm hs Pair.Idle s s') : s'.KeepsLive := by
  obtain ⟨down, up, hcd, hc, -⟩ := hi.converging
  cases hse with
  | @masterCall env eff n sent henv hca hallow =>
    have hfr : ∀ id d, eff = .insert id d →
        s.slave.origin id = none ∧ ∀ p ∈ s.down ++ s.up, ¬ p.msg.About id := by
      rintro id d rfl
      have hid := hallow id d rfl
      have hno := hca.synced_eq_none hmode henv hi.master
      exact ⟨hi.slave.origin_eq_none ((hi.synced_eq hid).trans hno), hid⟩
    intro k hk
    obtain ⟨id, hke⟩ := hca.keeps hmode henv hi.master hkp hfr k hk
    exact ⟨id, hke.mono mem_append_swap⟩
  | @slaveCall env eff n sent henv hca hallow =>
    have hfr : ∀ id d, eff = .insert id d →
        s.master.origin id = none ∧ ∀ p ∈ s.down ++ s.up, ¬ p.msg.About id := by
      rintro id d rfl
      have hid := hallow id d rfl
      have hno := hca.synced_eq_none hmode' henv hi.slave
      exact ⟨hi.master.origin_eq_none ((hi.synced_eq hid).symm.trans hno), hid⟩
    have hkp' : ∀ k ∈ s.live, ∃ id, Keeps s.slave.origin s.master.origin (s.down ++ s.up) k id :=
      fun k hk => (hkp k hk).imp fun id hke => hke.symm
    intro k hk
    obtain ⟨id, hke⟩ := hca.keeps hmode' henv hi.slave hkp' hfr k hk
    exact ⟨id, hke.symm.mono fun q hq => append_assoc _ _ _ ▸ hq⟩
  | @masterRecv env p rest n sent henv hn hrecv =>
    rw [hn, map_cons] at hc
    obtain ⟨a, up', ha, -, -⟩ := forall₂_cons_left_iff.mp hc
    intro k hk
    obtain ⟨id, hke⟩ := hkp k hk
    have hf : Keeps s.master.origin s.slave.origin (p :: (s.down ++ rest)) k id :=
      hke.mono fun q hq => hn ▸ perm_middle.mem_iff.mpr hq
    have hla := hrecv.keeps hmode henv hi.master hup (hdown.fits hfits) ha hf
    exact ⟨id, hla.mono mem_append_swap⟩
  | @slaveRecv env p rest n sent henv hn hrecv =>
    rw [hn, map_cons] at hcd
    obtain ⟨a, down', ha, -, -⟩ := forall₂_cons_left_iff.mp hcd
    intro k hk
    obtain ⟨id, hke⟩ := hkp k hk
    have hf : Keeps s.slave.origin s.master.origin (p :: (rest ++ s.up)) k id :=
      hke.symm.mono fun q hq => hn ▸ hq
    have hla := hrecv.keeps hmode' henv hi.slave hdown hfits ha hf
    exact ⟨id, hla.symm.mono fun q hq => append_assoc _ _ _ ▸ hq⟩

theorem Pair.inv_of_run {s₀ : Pair σ σ'} (hst : s₀.Inv)
    (hrun : ReflTransGen (Pair.Step hm hs allow) s₀ s) : s.Inv := by
  induction hrun with
  | refl => exact hst
  | tail _ hse ih => exact ih.step hdown hup hfits hmode hmode' hse

end

/-- A master and a slave start with equal copies of a table. However calls and messages interleave,
the copies agree in every state in which no message is on its way. In every run in which each
insertion takes an id that no message on its way is about, every entry that was inserted and that
neither node has deleted is there in one of the copies. -/
theorem concurrent_writers {σ σ' : Schema} (hdown : SameWire σ σ') (hup : SameWire σ' σ)
    (hfits : σ.Fits) (hmode : σ.sync_mode ≠ DB_SYNC_NONE) (hmode' : σ'.sync_mode ≠ DB_SYNC_NONE)
    (hm hs : Host) (tm : Table σ) (ts : Table σ') (hoccm : Occupancy tm.toCore)
    (hoccs : Occupancy ts.toCore) (hsync : synced ts.toCore = synced tm.toCore) :
    (∀ s, ReflTransGen (Pair.Step hm hs fun _ _ => True) (Pair.start tm ts) s →
      s.down = [] → s.up = [] →
      ∀ id, (s.slave.table.entries id).exist = (s.master.table.entries id).exist ∧
        (s.slave.table.entries id).real_data.map (Bytes.head σ'.sync_size) =
          (s.master.table.entries id).real_data.map (Bytes.head σ.sync_size)) ∧
    ∀ s, ReflTransGen (Pair.Step hm hs Pair.Idle) (Pair.start tm ts) s →
      ∀ k ∈ s.live, s.master.Has k ∨ s.slave.Has k := by
  have hstart := inv_start hoccm hoccs hsync
  constructor
  · intro s hrun hdown₀ hup₀ id
    have hinv := inv_of_run hdown hup hfits hmode hmode' hstart hrun
    have hidle : s.Idle id := by
      intro p hp
      rw [hdown₀, hup₀] at hp
      exact absurd hp not_mem_nil
    exact agree_of_synced hinv.master.occupancy hinv.slave.occupancy (hinv.synced_eq hidle)
  · intro s hrun
    have hinv := inv_of_run hdown hup hfits hmode hmode' hstart hrun
    have hkeeps : s.KeepsLive := by
      induction hrun with
      | refl => exact keepsLive_start hoccm hoccs hsync
      | tail hrun hstep ih =>
        have hinv := inv_of_run hdown hup hfits hmode hmode' hstart hrun
        exact (ih hinv).step hdown hup hfits hmode hmode' hinv hstep
    -- An entry that has a number exists.
    intro k hk
    obtain ⟨id, hkeep⟩ := hkeeps k hk
    refine hkeep.home.imp (fun hhome => ⟨id, ?_, hhome⟩) fun hhome => ⟨id, ?_, hhome⟩
    · rw [← hinv.master.origin, hhome]
      rfl
    · rw [← hinv.slave.origin, hhome]
      rfl

def relayEnv : Env := { syncEnv with platform_relay_flag := true }

def emptyPair : Pair syncedKeys syncedKeys :=
  Pair.start (createDbtable syncedKeys) (createDbtable syncedKeys)

def insertKeys (k v : UInt8) : LocalOp syncedKeys.entry_size := .hashInsert 0 (twoBytes k v)

def afterInsert (env : Env) (k v : UInt8) : Table syncedKeys :=
  (insertKeys k v).after env (createDbtable syncedKeys)

def keysMsg (op : SyncOp) (k v : UInt8) : SyncMsg := syncedKeys.entryMsg op 0 (twoBytes k v)

theorem keysMsg_about (op : SyncOp) (k v : UInt8) (id : ℕ) : (keysMsg op k v).About id ↔ id = 0 :=
  ⟨fun h => h.2.symm, fun h => h ▸ ⟨(by decide : (1 : UInt32) ≠ 0), rfl⟩⟩

theorem slave_insert : Call syncEnv 3 emptyPair.slave (.insert 0 (twoBytes 1 7))
    ⟨afterInsert syncEnv 1 7, update emptyPair.slave.origin 0 (some 3)⟩
    [⟨keysMsg .itemAdd 1 7, 3⟩] :=
  .mk (rfl : (insertKeys 1 7).run syncEnv _ = .ok (afterInsert syncEnv 1 7, 0))

/-- The entry of the slave's insertion is in one of the copies. -/
theorem concurrent_writers_insert :
    ∃ s, ReflTransGen (Pair.Step littleHost littleHost Pair.Idle) emptyPair s ∧
      3 ∈ s.live ∧ (s.master.Has 3 ∨ s.slave.Has 3) := by
  have henv : syncEnv.Syncs false := ⟨rfl, rfl, rfl⟩
  have hidle : ∀ id, emptyPair.Idle id := fun id p hp => absurd hp not_mem_nil
  have hrun := ReflTransGen.single (Pair.Step.slaveCall (s := emptyPair) henv slave_insert
    fun id _ _ => hidle id : Pair.Step littleHost littleHost Pair.Idle emptyPair _)
  have hlive : (3 : ℕ) ∈ Insert.insert 3 emptyPair.live := Finset.mem_insert_self _ _
  exact ⟨_, hrun, hlive, (concurrent_writers syncedKeys_sameWire syncedKeys_sameWire
    ⟨by decide, by decide⟩ (by decide) (by decide) littleHost littleHost _ _
    (occupancy_create syncedKeys) (occupancy_create syncedKeys) rfl).2 _ hrun 3 hlive⟩

theorem master_insert : Call relayEnv 4 emptyPair.master (.insert 0 (twoBytes 2 8))
    ⟨afterInsert relayEnv 2 8, update emptyPair.master.origin 0 (some 4)⟩
    [⟨keysMsg .itemAdd 2 8, 4⟩] :=
  .mk (rfl : (insertKeys 2 8).run relayEnv _ = .ok (afterInsert relayEnv 2 8, 0))

set_option maxRecDepth 4000 in
theorem master_recv_add :
    ∃ t c, dbtableRecv littleHost relayEnv 4 ⟨[⟨syncedKeys, afterInsert relayEnv 2 8⟩], 0⟩
        (keysMsg .itemAdd 1 7).wire = some (.ok (⟨[⟨syncedKeys, t⟩], 0⟩, c)) ∧
      sentSince (afterInsert relayEnv 2 8) t = [keysMsg .itemUpdate 1 7] ∧
      t.entry_use_num = 1 ∧ (t.entries 0).real_data = some (twoBytes 1 7) :=
  ⟨_, _, rfl, rfl, rfl, rfl⟩

set_option maxRecDepth 4000 in
theorem slave_recv_both :
    ∃ t₁ c₁ t c, dbtableRecv littleHost syncEnv 4 ⟨[⟨syncedKeys, afterInsert syncEnv 1 7⟩], 0⟩
        (keysMsg .itemAdd 2 8).wire = some (.ok (⟨[⟨syncedKeys, t₁⟩], 0⟩, c₁)) ∧
      sentSince (afterInsert syncEnv 1 7) t₁ = [] ∧
      dbtableRecv littleHost syncEnv 4 ⟨[⟨syncedKeys, t₁⟩], 0⟩ (keysMsg .itemUpdate 1 7).wire =
        some (.ok (⟨[⟨syncedKeys, t⟩], 0⟩, c)) ∧
      sentSince t₁ t = [] ∧
      t.entry_use_num = 1 ∧ (t.entries 0).real_data = some (twoBytes 1 7) :=
  ⟨_, _, _, _, rfl, rfl, rfl, rfl, rfl, rfl⟩

theorem overwritten (op : SyncOp) (t : Table syncedKeys) (o : ℕ → Option ℕ)
    (ho : ∀ id, id ≠ 0 → o id = none) :
    ¬ Has ⟨t, fun id =>
      if (keysMsg op 1 7).About id then if (t.entries id).exist then some 3 else none
      else o id⟩ 4 := by
  rintro ⟨id, -, hor⟩
  dsimp only at hor
  split_ifs at hor with ha hex
  · cases hor
  · rw [ho id fun hid => ha ((keysMsg_about _ _ _ _).mpr hid)] at hor
    simp at hor

/-- Both nodes insert an entry, with different keys, before they hear of each other, and both take
the id `0`. When nothing is on its way any more, the entry that the master has inserted is in
neither copy. -/
theorem insertion_lost :
    ∃ s, ReflTransGen (Pair.Step littleHost littleHost fun _ _ => True) emptyPair s ∧
      s.down = [] ∧ s.up = [] ∧
      (s.master.table.entry_use_num = 1 ∧
        (s.master.table.entries 0).real_data = some (twoBytes 1 7)) ∧
      (s.slave.table.entry_use_num = 1 ∧
        (s.slave.table.entries 0).real_data = some (twoBytes 1 7)) ∧
      4 ∈ s.live ∧ ¬ s.master.Has 4 ∧ ¬ s.slave.Has 4 := by
  have hslave : syncEnv.Syncs false := ⟨rfl, rfl, rfl⟩
  have hmaster : relayEnv.Syncs true := ⟨rfl, rfl, rfl⟩
  obtain ⟨tm, cm, hmrecv, hmsent, hmdata⟩ := master_recv_add
  obtain ⟨ts₁, c₁, ts, cs, hsrecv₁, hssent₁, hsrecv, hssent, hsdata⟩ := slave_recv_both
  -- What the nodes receive and send, with the numbers of the insertions.
  have hup := Recv.mk
    (n := ⟨afterInsert relayEnv 2 8, update emptyPair.master.origin 0 (some 4)⟩)
    (p := ⟨keysMsg .itemAdd 1 7, 3⟩) hmrecv
  rw [hmsent] at hup
  have hdown₁ := Recv.mk
    (n := ⟨afterInsert syncEnv 1 7, update emptyPair.slave.origin 0 (some 3)⟩)
    (p := ⟨keysMsg .itemAdd 2 8, 4⟩) hsrecv₁
  rw [hssent₁] at hdown₁
  have hdown := Recv.mk (n := ⟨ts₁, fun id =>
    if (keysMsg .itemAdd 2 8).About id then if (ts₁.entries id).exist then some 4 else none
    else update emptyPair.slave.origin 0 (some 3) id⟩)
    (p := ⟨keysMsg .itemUpdate 1 7, 3⟩) hsrecv
  rw [hssent] at hdown
  refine ⟨_, .tail (.tail (.tail (.tail (.tail .refl
      (.slaveCall hslave slave_insert fun _ _ _ => trivial))
      (.masterCall hmaster master_insert fun _ _ _ => trivial))
      (.masterRecv hmaster rfl hup))
      (.slaveRecv hslave rfl hdown₁))
      (.slaveRecv hslave rfl hdown), rfl, rfl, hmdata, hsdata, ?_, ?_, ?_⟩
  · exact Finset.mem_insert_self _ _
  · exact overwritten _ _ _ fun id hid => update_of_ne hid _ _
  · refine overwritten _ _ _ fun id hid => ?_
    dsimp only
    rw [if_neg fun habout => hid ((keysMsg_about _ _ _ _).mp habout), update_of_ne hid]
    rfl

end Chanos.Database

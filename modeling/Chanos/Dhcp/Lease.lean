import Chanos.Dhcp.System

/-!
# Leases along a run

`Leases` says, from an event and the bindings before it, which lease the event writes for its
client. The list of timeouts stays right in a run exactly as long as each of these leases is kept,
and then the timer thread deletes the bindings that have run out and no others
(`timersMatch_along_iff`).
-/

namespace Chanos.Dhcp

open Lib Database Bindings Option Except

def RxPacket.Leases {e : Endian} (m : Bindings e) (p : RxPacket) (lease_time : UInt32) :
    MessageType → Prop
  | .discover =>
    p.env.trustMode p.netif_index ≠ portModeNobind ∧
      ((m.binding p.data.chaddr = none ∧ m.HasRoom p.data.chaddr ∧ lease_time = requestTimeout) ∨
        ∃ b, m.binding p.data.chaddr = some b ∧ b.bind_type = bindTypeDynamic ∧
          lease_time = discoverLease e p.data b)
  | .request =>
    p.env.trustMode p.netif_index ≠ portModeNobind ∧ lease_time = requestTimeoutNak ∧
      ((m.binding p.data.chaddr = none ∧ m.HasRoom p.data.chaddr) ∨
        ∃ b, m.binding p.data.chaddr = some b ∧ b.bind_type = bindTypeDynamic ∧
          Moved e p.vid p.netif_index p.data b)
  | .ack =>
    Grants e p.data ∧ lease_time = offeredLease e p.data ∧
      ∃ b, m.binding p.data.chaddr = some b ∧ b.bind_type ≠ bindTypeStatic ∧
        p.env.PortKnown b.ifindex
  | .offer | .decline | .nak | .release | .inform | .unknown => False

open RxPacket

def BindingRequest.Writes {e : Endian} (m : Bindings e) (r : BindingRequest) : Prop :=
  r.Allowed ∧ r.opt_type = bindingOperateTypeAdd ∧
    ((m.binding r.macAddr = none ∧ m.HasRoom r.macAddr ∧ r.env.PortKnown r.eth_g_index) ∨
      ∃ b, m.binding r.macAddr = some b ∧ b.bind_type = bindTypeDynamic ∧
        r.env.PortKnown (if r.eth_g_index = 0 then b.ifindex else r.eth_g_index))

def LeasesKept {e : Endian} (w : SizeT) (s : SnpTable e) : SnpEvent → Prop
  | .packet p =>
    p.Recorded → ∀ type lease_time, p.messageType = some type →
      p.Leases s.bindings lease_time type →
        LeaseKept w (s.bindings.binding p.data.chaddr) p.env.now lease_time
  | .request r =>
    r.Writes s.bindings → LeaseKept w (s.bindings.binding r.macAddr) r.env.now r.lease_time
  | .timer _ => True

section

variable {e : Endian} {w : SizeT} {env : SnpEnv} {m : Bindings e} {user preuser temp : UserItem}

open TblCall

theorem kept_guardedWrite_iff {c : Bytes 6 → Prop} [DecidablePred c] :
    (guardedWrite env user c).Kept w m ↔
      ((user.state = bindStateBound → env.PortKnown user.ifindex) → c user.chaddr →
        LeaseKept w (m.binding user.chaddr) user.sys_escape user.lease_time) := by
  have hso := sourceGuard_isSome_iff env user
  cases hg : sourceGuard env user with
  | none =>
    rw [hg] at hso
    simp only [guardedWrite, hg]
    exact iff_of_true trivial fun hp => absurd (hso.mpr hp) (by simp)
  | some user' =>
    rw [hg] at hso
    obtain ⟨have_sg, rfl⟩ := sourceGuard_eq_some hg
    rw [guardedWrite_of_some hg, forall_prop_of_true (hso.mp rfl)]
    split_ifs with hc
    · rw [forall_prop_of_true hc]
      rfl
    · exact iff_of_true trivial fun hc' => absurd hc' hc

theorem TblCall.kept_refreshBind_iff (hp : m.binding preuser.chaddr = some temp)
    (hme : user.chaddr ∈ m.keys) :
    ((refreshBind preuser user).change env m).Kept w m ↔
      ((user.state = bindStateBound →
          env.PortKnown (if user.ifindex = 0 then temp.ifindex else user.ifindex)) →
        LeaseKept w (m.binding user.chaddr) env.now user.lease_time) := by
  rw [change_refreshBind hp, kept_guardedWrite_iff]
  exact imp_congr_right fun _ => forall_prop_of_true hme

end

open TblCall BindingRequest

section

variable {e : Endian} {w : SizeT} {s s' : SnpTable e} {p : RxPacket} {r : BindingRequest}
  {ev : SnpEvent} {call : TblCall} {off : ℕ}

theorem kept_insert_client_iff {lease_time relay_ip : UInt32} :
    ((insert (clientItem e p.vid p.netif_index p.data lease_time relay_ip)).change
        p.env.toSnpEnv s.bindings).Kept w s.bindings ↔
      (s.bindings.HasRoom p.data.chaddr →
        LeaseKept w (s.bindings.binding p.data.chaddr) p.env.now lease_time) := by
  rw [TblCall.change, kept_guardedWrite_iff]
  exact forall_prop_of_true fun hb => absurd hb (by decide : bindStateRequest ≠ bindStateBound)

section

variable {b : UserItem} (hb : s.bindings.binding p.data.chaddr = some b)
include hb

theorem kept_refresh_client_iff {lease_time relay_ip : UInt32} :
    ((refreshBind b (clientItem e p.vid p.netif_index p.data lease_time relay_ip)).change
        p.env.toSnpEnv s.bindings).Kept w s.bindings ↔
      LeaseKept w (s.bindings.binding p.data.chaddr) p.env.now lease_time :=
  (kept_refreshBind_iff (s.stored hb) (mem_keys_of_binding hb)).trans
    (forall_prop_of_true fun hbd => absurd hbd (by decide : bindStateRequest ≠ bindStateBound))

theorem kept_refresh_acked_iff :
    ((refreshBind (ackedItem e p.data b) (ackedItem e p.data b)).change p.env.toSnpEnv
        s.bindings).Kept w s.bindings ↔
      (p.env.PortKnown b.ifindex →
        LeaseKept w (s.bindings.binding p.data.chaddr) p.env.now (offeredLease e p.data)) := by
  have hp : s.bindings.binding (ackedItem e p.data b).chaddr = some b := s.stored hb
  have hse : (if b.ifindex = 0 then b.ifindex else b.ifindex) = b.ifindex := ite_self _
  rw [kept_refreshBind_iff hp (mem_keys_of_binding hp)]
  change (_ → p.env.PortKnown (if b.ifindex = 0 then b.ifindex else b.ifindex)) →
    LeaseKept w (s.bindings.binding b.chaddr) p.env.now (offeredLease e p.data) ↔ _
  rw [hse, s.holds.chaddr_eq hb]
  exact ⟨fun hkt hpt => hkt fun _ => hpt, fun hkt hpt => hkt (hpt rfl)⟩

end

theorem messageCall_kept_iff (h : p.Calls s.bindings off call) :
    (call.change p.env.toSnpEnv s.bindings).Kept w s.bindings ↔
      ∀ lease_time, p.Leases s.bindings lease_time (.ofByte (p.data.byte off)) →
        LeaseKept w (s.bindings.binding p.data.chaddr) p.env.now lease_time := by
  have hkp : ∀ {type}, (∀ lease_time, ¬p.Leases s.bindings lease_time type) → call = .keep →
      ((call.change p.env.toSnpEnv s.bindings).Kept w s.bindings ↔
        ∀ lease_time, p.Leases s.bindings lease_time type →
          LeaseKept w (s.bindings.binding p.data.chaddr) p.env.now lease_time) := by
    rintro type hn rfl
    exact iff_of_true trivial fun lease_time hls => absurd hls (hn lease_time)
  unfold Calls messageCall at h
  cases hty : MessageType.ofByte (p.data.byte off) with simp only [hty] at h
  | discover =>
    split_ifs at h with ht
    · exact hkp (fun _ hls => hls.1 ht) (ok.inj h).symm
    rcases discoveryProcess_cases h with
      ⟨hno, rfl⟩ | ⟨b, hb, hd, rfl⟩ | ⟨b, hb, hd, hca⟩
    · rw [kept_insert_client_iff]
      simp [Leases, ht, hno]
    · rw [kept_refresh_client_iff hb]
      simp [Leases, ht, hb, hd]
    · exact hkp (by simp [Leases, hb, hd]) hca
  | request =>
    split_ifs at h with ht
    · exact hkp (fun _ hls => hls.1 ht) (ok.inj h).symm
    rcases requestProcess_cases h with
      ⟨hno, rfl⟩ | ⟨b, hb, hd, hmv, relay_ip, rfl⟩ | ⟨b, hb, hn, hca⟩
    · rw [kept_insert_client_iff]
      simp [Leases, ht, hno]
    · rw [kept_refresh_client_iff hb]
      simp [Leases, ht, hb, hd, hmv]
    · exact hkp (by simpa [Leases, ht, hb] using hn) hca
  | ack =>
    rcases ackProcess_cases h with ⟨hg, b, hb, hne, rfl⟩ | ⟨hn, hca⟩
    · rw [kept_refresh_acked_iff hb]
      simp [Leases, hg, hb, hne]
    · refine hkp ?_ hca
      rintro lease_time ⟨hg, -, b, hb, hne, -⟩
      exact hn ⟨hg, b, hb, hne⟩
  | nak =>
    rcases nackProcess_cases h with ⟨b, -, -, -, rfl⟩ | ⟨-, hca⟩
    · exact iff_of_true trivial fun _ hls => hls.elim
    · exact hkp (fun _ hls => hls) hca
  | release | decline =>
    rcases releaseProcess_cases h with hca | ⟨b, -, -, rfl⟩
    · exact hkp (fun _ hls => hls) hca
    · exact iff_of_true trivial fun _ hls => hls.elim
  | offer => split_ifs at h <;> exact hkp (fun _ hls => hls) (ok.inj h).symm
  | inform | unknown => exact hkp (fun _ hls => hls) (ok.inj h).symm

theorem BindingRequest.call_kept_iff (hallow : r.Allowed)
    (h : r.call s.bindings.find = .ok call) :
    (call.change r.env.toSnpEnv s.bindings).Kept w s.bindings ↔
      (r.Writes s.bindings → LeaseKept w (s.bindings.binding r.macAddr) r.env.now r.lease_time) := by
  rcases call_cases h with
    ⟨ht, hno, rfl⟩ | ⟨ht, b, hb, hd, rfl⟩ | ⟨⟨b, hb, hd⟩, rfl⟩ | ⟨ht, b, hb, rfl⟩
  · rw [TblCall.change, kept_guardedWrite_iff]
    constructor
    · rintro hkt ⟨-, -, ⟨-, hr, hp⟩ | ⟨b, hb, -⟩⟩
      · exact hkt (fun _ => hp) hr
      · cases hno.symm.trans hb
    · exact fun hkt hp hr => hkt ⟨hallow, ht, .inl ⟨hno, hr, hp rfl⟩⟩
  · rw [kept_refreshBind_iff (s.stored hb) (mem_keys_of_binding hb)]
    constructor
    · rintro hkt ⟨-, -, ⟨hno, -⟩ | ⟨b', hb', -, hp⟩⟩
      · cases hno.symm.trans hb
      · obtain rfl := mem_unique hb hb'
        exact hkt fun _ => hp
    · exact fun hkt hp => hkt ⟨hallow, ht, .inr ⟨b, hb, hd, hp rfl⟩⟩
  · refine iff_of_true trivial ?_
    rintro ⟨-, -, ⟨hno, -⟩ | ⟨b', hb', hd', -⟩⟩
    · cases hno.symm.trans hb
    · obtain rfl := mem_unique hb hb'
      exact absurd hd' hd
  · exact iff_of_true trivial fun hwr => absurd hwr.2.1 ht

theorem BindingRequest.not_writes (h : ∀ call, r.Allowed → r.call s.bindings.find ≠ .ok call) :
    ¬r.Writes s.bindings := by
  rintro ⟨hallow, ht, ⟨hno, -⟩ | ⟨b, hb, hd, -⟩⟩
  · exact h _ hallow (call_of_none ht hno)
  · exact h _ hallow (call_of_dynamic ht hb hd)

theorem SnpEvent.Makes.kept_iff (h : ev.Makes w s call) :
    (call.change ev.env s.bindings).Kept w s.bindings ↔ LeasesKept w s ev := by
  cases ev with
  | packet p =>
    rcases h with ⟨hno, rfl⟩ | ⟨hr, off, ho, hca⟩
    · refine iff_of_true trivial fun hr type lease_time ht => ?_
      exact absurd (ht.symm.trans (hno hr)) (by simp)
    have ht := p.messageType_eq ho
    refine (messageCall_kept_iff hca).trans ⟨fun hkt _ type lease_time ht' hls => ?_,
      fun hkt lease_time => hkt hr _ lease_time ht⟩
    obtain rfl := mem_unique ht ht'
    exact hkt lease_time hls
  | request r =>
    rcases h with ⟨hno, rfl⟩ | ⟨hallow, hca⟩
    · exact iff_of_true trivial fun hwr => absurd hwr (not_writes hno)
    · exact call_kept_iff hallow hca
  | timer env =>
    obtain rfl := h
    refine iff_of_true ?_ trivial
    change ((timerCall env.now s.bindings.find (ndsTimeout w s.table)).change env s.bindings).Kept w
      s.bindings
    rcases timerCall_cases env.now s (ndsTimeout w s.table) with h | ⟨b, -, h⟩
    all_goals
      rw [h]
      trivial

theorem SnpStep.timersMatch_iff (h : SnpStep w s ev s') (hs : TimersMatch w s) :
    TimersMatch w s' ↔ LeasesKept w s ev := by
  obtain ⟨call, hmk, hma⟩ := h.made
  rw [hma.timersMatch_iff hs]
  exact hmk.kept_iff

end

theorem timersMatch_emptyTable (w : SizeT) (e : Endian) : TimersMatch w (emptyTable e) :=
  fun _ => rfl

/-- In a run from a new table the list is right after each step, and the timer thread deletes what
has run out and nothing else, exactly when the leases that the steps write are all kept. -/
theorem timersMatch_along_iff {e : Endian} {w : SizeT} {l : List (SnpEvent × SnpTable e)}
    (h : Along (SnpStep w) (emptyTable e) l) :
    Along (fun _ _ s' => TimersMatch w s' ∧ TimerExact w s') (emptyTable e) l ↔
      Along (fun s ev _ => LeasesKept w s ev) (emptyTable e) l := by
  refine along_invariant_iff (fun s ev s' hstep hs => ?_) h
    ⟨timersMatch_emptyTable w e, (timersMatch_emptyTable w e).timerExact⟩
  rw [← hstep.timersMatch_iff hs.1]
  exact ⟨fun h => h.1, fun h => ⟨h, h.timerExact⟩⟩

/-! ## Expiry passes -/

/-- The tables that calls on a new one lead to. -/
inductive SnpTable.Reached {e : Endian} : SnpTable e → Prop
  | start : Reached (emptyTable e)
  | call {s s' : SnpTable e} {env : SnpEnv} {call : TblCall} {ret : ReturnCode} (h : Reached s)
      (hrun : call.run env s.table = .ok (s'.table, ret)) : Reached s'

theorem SnpTable.Reached.timed {e : Endian} {s : SnpTable e} (h : s.Reached) (w : SizeT) :
    Timed w (ndsTimeout w s.table) s.bindings := by
  induction h with
  | start => exact fun _ _ => rfl
  | call _ hrun ih => exact (made_of_run hrun).timed ih

/-- An expiry pass on a table that is reached ends after a round for each timeout at most, and it
deletes the bindings whose timeout has come and no others. -/
theorem expiryPass_exact {e : Endian} {s : SnpTable e} (hreached : s.Reached) (w : SizeT)
    (env : SnpEnv) (hnow : env.now ≠ 0) :
    ∃ s' : SnpTable e,
      timerLoop w env (ndsTimeout w s.table).length s.table = .ok (some s'.table) ∧
        ∀ chaddr b, s'.bindings.binding chaddr = some b ↔
          s.bindings.binding chaddr = some b ∧
            ∀ d ∈ TimerList.deadlines chaddr (ndsTimeout w s.table), env.now.toNat < d := by
  obtain ⟨s', hloop, -, hleft⟩ := (hreached.timed w).timerLoop hnow le_rfl
  exact ⟨s', hloop, hleft⟩

theorem exists_insertRun {e : Endian} (w : SizeT) (s : SnpTable e) (env : SnpEnv) (b : UserItem)
    (hg : sourceGuard env { b with sys_escape := env.now } = some b)
    (hroom : s.bindings.HasRoom b.chaddr) (hnone : s.bindings.binding b.chaddr = none) :
    ∃ s' : SnpTable e,
      (insert b).run env s.table = .ok (s'.table, (insert b).code env s.bindings) ∧
        s'.bindings = s.bindings.write b ∧
        ndsTimeout w s'.table = npdDhcpSnpHandleInsert w true b (ndsTimeout w s.table) := by
  obtain ⟨s', hrun⟩ := (insert b).exists_run env s
  have hc : (insert b).change env s.bindings = .write b :=
    (TblCall.change_insert hg).trans (if_pos hroom)
  have hmade := made_of_run hrun
  refine ⟨s', hrun, ?_, ?_⟩
  · rw [hmade.bindings, hc]
    rfl
  · rw [hmade.ndsTimeout_eq, hc]
    exact handle_writeCall_of_none hnone

def longBinding : UserItem := { sampleBinding with chaddr := .six 2 0 0 0 0 2, lease_time := 600 }

/-- A pass at 200 seconds deletes the binding for 60 seconds and keeps the one for 600. -/
theorem expiryPass_exact_sample :
    ∃ s s' s'' : SnpTable .little,
      (insert sampleBinding).run sampleEnv (emptyTable .little).table =
          .ok (s.table, (insert sampleBinding).code sampleEnv (emptyTable .little).bindings) ∧
        (insert longBinding).run sampleEnv s.table =
          .ok (s'.table, (insert longBinding).code sampleEnv s.bindings) ∧
        timerLoop .bits32 { sampleEnv with now := 200 } (ndsTimeout .bits32 s'.table).length
          s'.table = .ok (some s''.table) ∧
        s''.bindings.binding sampleBinding.chaddr = none ∧
        s''.bindings.binding longBinding.chaddr = some longBinding := by
  have hroom : (emptyTable .little).bindings.HasRoom sampleBinding.chaddr := hasRoom_empty ..
  obtain ⟨s, hrun, hs, hl⟩ := exists_insertRun .bits32 _ sampleEnv sampleBinding rfl hroom rfl
  have hb (chaddr) : s.bindings.binding chaddr =
      if chaddr = sampleBinding.chaddr then some sampleBinding else none := by
    rw [hs, binding_write hroom]
    rfl
  have hroom' : s.bindings.HasRoom longBinding.chaddr := by
    rw [hs]
    exact .inr (show 1 < 512 by decide)
  obtain ⟨s', hrun', hs', hl'⟩ := exists_insertRun .bits32 s sampleEnv longBinding rfl hroom' (hb _)
  have hb' (chaddr) : s'.bindings.binding chaddr =
      if chaddr = longBinding.chaddr then some longBinding else s.bindings.binding chaddr := by
    rw [hs', binding_write hroom']
  have hreached : s'.Reached := .call (.call .start hrun) hrun'
  obtain ⟨s'', hloop, hleft⟩ :=
    expiryPass_exact hreached .bits32 { sampleEnv with now := 200 } (by decide)
  rw [hl', hl] at hleft
  refine ⟨s, s', s'', hrun, hrun', hloop, ?_, (hleft _ _).mpr ⟨hb' _, by decide⟩⟩
  refine eq_none_iff_forall_ne_some.mpr fun b hb => ?_
  exact absurd ((hleft _ b).mp hb).2 (by decide)

/-! ## A renewal -/

theorem leasesKept_discoverPacket (w : SizeT) :
    LeasesKept w (emptyTable .little) (.packet discoverPacket) := by
  intro _ type lease_time ht hls
  obtain rfl : MessageType.discover = type := some.inj ht
  obtain ⟨-, ⟨-, -, rfl⟩ | ⟨b, hb, -⟩⟩ := hls
  · exact show (100 : UInt32).toNat + requestTimeout.toNat < 2 ^ 32 by decide
  · exact absurd hb (by simp [emptyTable, binding, BoundedMap.empty])

theorem not_leasesKept_ackPacket (w : SizeT) {s : SnpTable .little}
    (hs : s.bindings = write .empty sampleBinding) :
    ¬LeasesKept w s (.packet ackPacket) := by
  intro hkt
  have hb : s.bindings.binding ackPacket.data.chaddr = some sampleBinding := by
    rw [hs]
    exact find_sampleBinding (show sampleBinding.chaddr = sampleBinding.chaddr from rfl)
  have hg : Grants .little ackPacket.data := ⟨rfl, by decide, by decide⟩
  have hp : ackPacket.env.PortKnown sampleBinding.ifindex := nofun
  have hls := hkt recorded_ackPacket .ack 60 rfl ⟨hg, by decide, sampleBinding, hb, by decide, hp⟩
  rw [hb, LeaseKept, if_pos (by decide)] at hls
  exact absurd hls (by decide)

/-- A client that gets its binding at 100 seconds, for 60 seconds, and has it acknowledged for 60
seconds at 130 seconds has a timeout that runs out too early. -/
theorem timersMatch_broken :
    ∃ s s' : SnpTable .little,
      Along (SnpStep .bits32) (emptyTable .little)
          [(.packet discoverPacket, s), (.packet ackPacket, s')] ∧
        TimersMatch .bits32 s ∧ ¬TimersMatch .bits32 s' := by
  obtain ⟨s, hs, hdiscover⟩ := exists_discoverStep
  obtain ⟨s', hack⟩ := exists_ackStep (s := s)
  have hstep : SnpStep .bits32 (emptyTable .little) (.packet discoverPacket) s := hdiscover
  have hstep' : SnpStep .bits32 s (.packet ackPacket) s' := hack
  have hmatch : TimersMatch .bits32 s :=
    (hstep.timersMatch_iff (timersMatch_emptyTable .bits32 .little)).mpr (leasesKept_discoverPacket .bits32)
  exact ⟨s, s', ⟨hstep, hstep', trivial⟩, hmatch, fun hmatch' =>
    not_leasesKept_ackPacket .bits32 hs ((hstep'.timersMatch_iff hmatch).mp hmatch')⟩

/-- A client asks for an address at 100 seconds, and the timer thread looks again at 200. -/
theorem timersMatch_along_discover :
    ∃ s s' : SnpTable .little,
      let l := [(SnpEvent.packet discoverPacket, s), (.timer { sampleEnv with now := 200 }, s')]
      Along (SnpStep .bits32) (emptyTable .little) l ∧
        Along (fun _ _ s' => TimersMatch .bits32 s' ∧ TimerExact .bits32 s') (emptyTable .little)
          l := by
  obtain ⟨s, -, hdiscover⟩ := exists_discoverStep
  obtain ⟨s', htimer, -⟩ := exists_snpStep_timer .bits32 { sampleEnv with now := 200 } s
  have htrace : Along (SnpStep .bits32) (emptyTable .little)
      [(.packet discoverPacket, s), (.timer { sampleEnv with now := 200 }, s')] :=
    ⟨hdiscover, htimer, trivial⟩
  exact ⟨s, s', htrace,
    (timersMatch_along_iff htrace).mpr ⟨leasesKept_discoverPacket .bits32, trivial, trivial⟩⟩

end Chanos.Dhcp

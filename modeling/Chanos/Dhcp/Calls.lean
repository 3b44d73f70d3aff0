import Chanos.Dhcp.Snooping

/-!
# Which calls the messages make

For each handler, the call that it ends with and when: a client without a binding gets one, a client
with a dynamic binding has it renewed, and a refusal or a release deletes it. What is proved about
sequences of messages follows from these cases.
-/

namespace Chanos.Dhcp

open Lib Database

section

variable {e : Endian} {m : Bindings e} {vlanid : UInt16} {ifindex : UInt32}
  {dhcp : DhcpMessage} {call : TblCall} {garbage : UserItem}

def clientItem (e : Endian) (vlanid : UInt16) (ifindex : UInt32) (dhcp : DhcpMessage)
    (lease_time relay_ip : UInt32) : UserItem :=
  { pktItem e vlanid ifindex dhcp .zero with
    state := bindStateRequest, lease_time, relay_ip, xid := dhcp.xid e }

def discoverLease (e : Endian) (dhcp : DhcpMessage) (temp : UserItem) : UInt32 :=
  if dhcp.op = bootreply ∧ offeredLease e dhcp ≠ 0 then offeredLease e dhcp
  else if temp.lease_time = 0 then requestTimeout else temp.lease_time

def Moved (e : Endian) (vlanid : UInt16) (ifindex : UInt32) (dhcp : DhcpMessage)
    (temp : UserItem) : Prop :=
  temp.ifindex ≠ ifindex ∨ temp.vlanId ≠ vlanid ∨ temp.relay_ip ≠ dhcp.giaddr e

def ackedItem (e : Endian) (dhcp : DhcpMessage) (temp : UserItem) : UserItem :=
  { temp with
    ip_addr := dhcp.yiaddr e, lease_time := offeredLease e dhcp, state := bindStateBound,
    server_id := optionWord e dhcp dhcpServerId }

theorem pktItem_lease_time :
    (pktItem e vlanid ifindex dhcp .zero).lease_time =
      if dhcp.op = bootreply then offeredLease e dhcp else 0 := by
  unfold pktItem
  by_cases hop : dhcp.op = bootreply
  · by_cases hget : npdDhcpSnpGetOption dhcp dhcpLeaseTime = none
    · simp [hop, hget, offeredLease_eq_zero hget, UserItem.zero]
    · simp [hop, hget]
  · simp [hop, UserItem.zero]

theorem discoveryProcess_cases
    (h : npdDhcpSnpDiscoveryProcess e m.find vlanid ifindex dhcp = .ok call) :
    (m.binding dhcp.chaddr = none ∧
        call = .insert (clientItem e vlanid ifindex dhcp requestTimeout (dhcp.giaddr e))) ∨
      (∃ temp, m.binding dhcp.chaddr = some temp ∧
        temp.bind_type = bindTypeDynamic ∧
        call = .refreshBind temp
          (clientItem e vlanid ifindex dhcp (discoverLease e dhcp temp) (dhcp.giaddr e))) ∨
      ∃ temp, m.binding dhcp.chaddr = some temp ∧
        temp.bind_type ≠ bindTypeDynamic ∧ call = .keep := by
  have hls := discoveryProcess_defined_iff.mp ⟨call, h⟩
  rw [npdDhcpSnpDiscoveryProcess, getItem_bind hls] at h
  cases hf : m.find (pktItem e vlanid ifindex dhcp .zero) with rw [hf] at h
  | none => exact .inl ⟨hf, (Except.ok.inj h).symm⟩
  | some temp =>
    dsimp only at h
    by_cases hd : temp.bind_type = bindTypeDynamic
    · rw [if_pos hd] at h
      refine .inr (.inl ⟨temp, hf, hd, ?_⟩)
      have hlt : (if (pktItem e vlanid ifindex dhcp .zero).lease_time = 0 then
            if temp.lease_time = 0 then requestTimeout else temp.lease_time
          else (pktItem e vlanid ifindex dhcp .zero).lease_time) = discoverLease e dhcp temp := by
        rw [pktItem_lease_time, discoverLease]
        by_cases hop : dhcp.op = bootreply
        · by_cases ho : offeredLease e dhcp = 0
          all_goals simp [hop, ho]
        · simp [hop]
      rw [hlt] at h
      exact (Except.ok.inj h).symm
    · rw [if_neg hd] at h
      exact .inr (.inr ⟨temp, hf, hd, (Except.ok.inj h).symm⟩)

theorem requestProcess_cases
    (h : npdDhcpSnpRequestProcess e m.find vlanid ifindex dhcp = .ok call) :
    (m.binding dhcp.chaddr = none ∧
        call = .insert (clientItem e vlanid ifindex dhcp requestTimeoutNak (dhcp.giaddr e))) ∨
      (∃ temp, m.binding dhcp.chaddr = some temp ∧
        temp.bind_type = bindTypeDynamic ∧ Moved e vlanid ifindex dhcp temp ∧
        ∃ relay_ip, call = .refreshBind temp
          (clientItem e vlanid ifindex dhcp requestTimeoutNak relay_ip)) ∨
      ∃ temp, m.binding dhcp.chaddr = some temp ∧
        ¬(temp.bind_type = bindTypeDynamic ∧ Moved e vlanid ifindex dhcp temp) ∧ call = .keep := by
  have hls := requestProcess_defined_iff.mp ⟨call, h⟩
  rw [npdDhcpSnpRequestProcess, getItem_bind hls] at h
  cases hf : m.find (pktItem e vlanid ifindex dhcp .zero) with rw [hf] at h
  | none => exact .inl ⟨hf, (Except.ok.inj h).symm⟩
  | some temp =>
    dsimp only at h
    by_cases hmv : temp.bind_type = bindTypeDynamic ∧
        (temp.ifindex ≠ ifindex ∨ temp.vlanId ≠ vlanid ∨ temp.relay_ip ≠ dhcp.giaddr e)
    · rw [if_pos hmv] at h
      exact .inr (.inl ⟨temp, hf, hmv.1, hmv.2, _, (Except.ok.inj h).symm⟩)
    · rw [if_neg hmv] at h
      exact .inr (.inr ⟨temp, hf, hmv, (Except.ok.inj h).symm⟩)

/-- A handler that goes on only for the dynamic entry of its client. -/
theorem found_eq_ok {o : Option UserItem} {f : UserItem → Except Fault TblCall}
    (h : (match o with
      | none => .ok .keep
      | some temp => if temp.bind_type = bindTypeStatic then .ok .keep else f temp) =
        Except.ok call) :
    ((∀ b, o = some b → b.bind_type = bindTypeStatic) ∧ call = .keep) ∨
      ∃ b, o = some b ∧ b.bind_type ≠ bindTypeStatic ∧ f b = .ok call := by
  cases o with
  | none => exact .inl ⟨fun b hb => (by cases hb), (Except.ok.inj h).symm⟩
  | some temp =>
    dsimp only at h
    split_ifs at h with hsa
    · exact .inl ⟨fun b hb => Option.some.inj hb ▸ hsa, (Except.ok.inj h).symm⟩
    · exact .inr ⟨temp, rfl, hsa, h⟩

theorem ackProcess_cases (h : npdDhcpSnpAckProcess e m.find vlanid ifindex dhcp = .ok call) :
    (Grants e dhcp ∧ ∃ temp, m.binding dhcp.chaddr = some temp ∧
        temp.bind_type ≠ bindTypeStatic ∧
        call = .refreshBind (ackedItem e dhcp temp) (ackedItem e dhcp temp)) ∨
      (¬(Grants e dhcp ∧ ∃ temp, m.binding dhcp.chaddr = some temp ∧
        temp.bind_type ≠ bindTypeStatic) ∧ call = .keep) := by
  obtain ⟨hls, hwd⟩ := ackProcess_defined_iff.mp ⟨call, h⟩
  rw [npdDhcpSnpAckProcess, getItem_bind hls] at h
  by_cases hg : Grants e dhcp
  · have haddr : (pktItem e vlanid ifindex dhcp .zero).ip_addr = dhcp.yiaddr e := if_pos hg.1
    have ht : (pktItem e vlanid ifindex dhcp .zero).lease_time = offeredLease e dhcp := by
      rw [pktItem_lease_time, if_pos hg.1]
    rw [if_neg ((pktItem_grants_iff vlanid ifindex).mpr hg)] at h
    rcases found_eq_ok h with ⟨hno, hca⟩ | ⟨temp, hf, hne, h⟩
    · refine .inr ⟨?_, hca⟩
      rintro ⟨-, b, hb, hne⟩
      exact hne (hno b hb)
    · rw [readOption_of_hasWord (hwd hg ⟨temp, hf, hne⟩), haddr, ht] at h
      exact .inl ⟨hg, temp, hf, hne, (Except.ok.inj h).symm⟩
  · have hit := mt (pktItem_grants_iff vlanid ifindex).mp hg
    rw [not_not] at hit
    rw [if_pos hit] at h
    exact .inr ⟨fun h' => hg h'.1, (Except.ok.inj h).symm⟩

def Refuses (e : Endian) (dhcp : DhcpMessage) (b : UserItem) : Prop :=
  b.bind_type = bindTypeDynamic ∧ b.server_id = optionWord e dhcp dhcpServerId

theorem nackProcess_cases
    (h : npdDhcpSnpNackProcess e m.find vlanid ifindex dhcp garbage = .ok call) :
    (∃ b, m.binding dhcp.chaddr = some b ∧ Refuses e dhcp b ∧
        HasWord dhcp dhcpServerId ∧ call = .delete b) ∨
      (¬(∃ b, m.binding dhcp.chaddr = some b ∧ Refuses e dhcp b) ∧ call = .keep) := by
  obtain ⟨hls, hwd⟩ := nackProcess_defined_iff.mp ⟨call, h⟩
  rw [npdDhcpSnpNackProcess, getItem_bind hls] at h
  rcases found_eq_ok h with ⟨hno, hca⟩ | ⟨user, hf, hne, h⟩
  · refine .inr ⟨?_, hca⟩
    rintro ⟨b, hb, hr⟩
    exact absurd ((hno b hb).symm.trans hr.1) (by decide)
  · have hid := hwd ⟨user, hf, hne⟩
    rw [readOption_of_hasWord hid] at h
    dsimp only [bind, Except.bind] at h
    by_cases hr : Refuses e dhcp user
    · rw [if_neg (not_not.mpr hr.2), if_pos hr.1] at h
      exact .inl ⟨user, hf, hr, hid, (Except.ok.inj h).symm⟩
    · refine .inr ⟨?_, ?_⟩
      · rintro ⟨b, hb, hrb⟩
        exact hr (Option.some.inj (hb.symm.trans hf) ▸ hrb)
      · split_ifs at h with hsr hd
        exacts [(Except.ok.inj h).symm, absurd ⟨hd, not_not.mp hsr⟩ hr, (Except.ok.inj h).symm]

theorem releaseProcess_cases
    (h : npdDhcpSnpReleaseProcess e m.find vlanid ifindex dhcp = .ok call) :
    call = .keep ∨ ∃ b, m.binding dhcp.chaddr = some b ∧
      b.bind_type = bindTypeDynamic ∧ call = .delete b := by
  have hls := (releaseProcess_defined_iff.mp ⟨call, h⟩).1
  rw [npdDhcpSnpReleaseProcess, getItem_bind hls] at h
  rcases found_eq_ok h with ⟨-, hca⟩ | ⟨temp, hf, -, h⟩
  · exact .inl hca
  · obtain ⟨same, -, h⟩ := bind_eq_ok.mp h
    split_ifs at h with hd
    · exact .inr ⟨temp, hf, hd.2, (Except.ok.inj h).symm⟩
    · exact .inl (Except.ok.inj h).symm

theorem messageCall_forms {message_type : UInt8} {trustMode : UInt32}
    (h : messageCall e m.find vlanid ifindex dhcp garbage message_type trustMode = .ok call) :
    call = .keep ∨
      (m.binding dhcp.chaddr = none ∧ ∃ lease_time relay_ip,
        call = .insert (clientItem e vlanid ifindex dhcp lease_time relay_ip)) ∨
      ∃ b, m.binding dhcp.chaddr = some b ∧ b.bind_type ≠ bindTypeStatic ∧
        (call = .delete b ∨
          (∃ lease_time relay_ip,
            call = .refreshBind b (clientItem e vlanid ifindex dhcp lease_time relay_ip)) ∨
          Grants e dhcp ∧ call = .refreshBind (ackedItem e dhcp b) (ackedItem e dhcp b)) := by
  have hd : ∀ b : UserItem, b.bind_type = bindTypeDynamic → b.bind_type ≠ bindTypeStatic := by
    intro b hb
    rw [hb]
    decide
  have hkp : ∀ call', (.ok .keep : Except Fault TblCall) = .ok call' → call' = .keep :=
    fun call' h => (Except.ok.inj h).symm
  unfold messageCall at h
  cases ht : MessageType.ofByte message_type with simp only [ht] at h
  | discover =>
    split_ifs at h
    · exact .inl (hkp _ h)
    rcases discoveryProcess_cases h with
      ⟨hno, hca⟩ | ⟨b, hb, hdy, hca⟩ | ⟨_, -, -, hca⟩
    · exact .inr (.inl ⟨hno, _, _, hca⟩)
    · exact .inr (.inr ⟨b, hb, hd b hdy, .inr (.inl ⟨_, _, hca⟩)⟩)
    · exact .inl hca
  | request =>
    split_ifs at h
    · exact .inl (hkp _ h)
    rcases requestProcess_cases h with
      ⟨hno, hca⟩ | ⟨b, hb, hdy, -, _, hca⟩ | ⟨_, -, -, hca⟩
    · exact .inr (.inl ⟨hno, _, _, hca⟩)
    · exact .inr (.inr ⟨b, hb, hd b hdy, .inr (.inl ⟨_, _, hca⟩)⟩)
    · exact .inl hca
  | offer => split_ifs at h <;> exact .inl (hkp _ h)
  | ack =>
    rcases ackProcess_cases h with ⟨hg, b, hb, hne, hca⟩ | ⟨-, hca⟩
    · exact .inr (.inr ⟨b, hb, hne, .inr (.inr ⟨hg, hca⟩)⟩)
    · exact .inl hca
  | nak =>
    rcases nackProcess_cases h with ⟨b, hb, hr, -, hca⟩ | ⟨-, hca⟩
    · exact .inr (.inr ⟨b, hb, hd b hr.1, .inl hca⟩)
    · exact .inl hca
  | release | decline =>
    rcases releaseProcess_cases h with hca | ⟨b, hb, hdy, hca⟩
    · exact .inl hca
    · exact .inr (.inr ⟨b, hb, hd b hdy, .inl hca⟩)
  | inform | unknown => exact .inl (hkp _ h)

end

theorem SnpTable.stored {e : Endian} (s : SnpTable e) {chaddr : Bytes 6} {b : UserItem}
    (h : s.bindings.binding chaddr = some b) : s.bindings.binding b.chaddr = some b := by
  rw [s.holds.chaddr_eq h]
  exact h

structure TblCall.Made {e : Endian} (env : SnpEnv) (call : TblCall) (s s' : SnpTable e) : Prop where
  bindings : s'.bindings = (call.change env s.bindings).apply s.bindings
  calls : s'.table.calls = s.table.calls ++ (call.change env s.bindings).calls s.bindings

section

variable {e : Endian} {env : SnpEnv} {call : TblCall} {s s' : SnpTable e} {ret : ReturnCode}

theorem TblCall.exists_run (env : SnpEnv) (call : TblCall) (s : SnpTable e) :
    ∃ s' : SnpTable e, call.run env s.table = .ok (s'.table, call.code env s.bindings) := by
  obtain ⟨t', hrun, hh, -⟩ := call.run_spec s.holds env
  exact ⟨⟨t', _, hh⟩, hrun⟩

theorem TblCall.made_of_run (h : call.run env s.table = .ok (s'.table, ret)) :
    call.Made env s s' := by
  obtain ⟨t', hrun, hh, hc⟩ := call.run_spec s.holds env
  obtain rfl : t' = s'.table := (Prod.mk.inj (Except.ok.inj (hrun.symm.trans h))).1
  exact ⟨s'.holds.unique hh, hc⟩

theorem TblCall.made_keep (env : SnpEnv) (h : s'.table = s.table) : TblCall.keep.Made env s s' := by
  refine TblCall.made_of_run (show TblCall.run env s.table .keep = .ok (s'.table, .ok) from ?_)
  rw [h]
  rfl

def TblCall.Touches (chaddr : Bytes 6) : TblCall → Prop
  | keep => False
  | insert user | refreshBind _ user | delete user => user.chaddr = chaddr

theorem TblCall.Made.binding_eq (h : call.Made env s s') {chaddr : Bytes 6}
    (hne : ¬call.Touches chaddr) : s'.bindings.binding chaddr = s.bindings.binding chaddr := by
  rw [h.bindings]
  rcases call.change_cases env s.bindings with hc | ⟨user, rfl, hc⟩ | ⟨user', hc, hr, hwr⟩
  · rw [hc]
    rfl
  · have hch : ¬chaddr = user.chaddr := fun heq => hne heq.symm
    rw [hc, Change.apply, Bindings.binding_erase, if_neg hch]
  · have hch : ¬chaddr = user'.chaddr := by
      intro heq
      obtain ⟨user, rfl | ⟨_, rfl⟩, _, _, _, _, rfl⟩ := hwr
      all_goals exact hne heq.symm
    rw [hc, Change.apply, Bindings.binding_write hr, if_neg hch]

end

end Chanos.Dhcp

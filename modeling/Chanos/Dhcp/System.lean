import Chanos.Dhcp.Timeout
import Chanos.Dhcp.Trust

/-!
# The snooping system

Three things change the bindings: the packets that are received, the requests of an administrator
(`npd_dbus_dhcp_snp_add_del_binding`) and the timer thread. `SnpEvent` is one of them, with all that
it finds around it, and `SnpStep` the step that it makes.
-/

namespace Chanos.Dhcp

open Lib Database Except TblCall

def bindingOperateTypeAdd : UInt32 := 0

def bindingOperateTypeDel : UInt32 := 1

structure BindingEnv extends SnpEnv where
  npd_dhcp_snp_check_global_status : ReturnCode
  npd_dhcp_snp_check_vlan_status : UInt16 → ReturnCode
  npd_vlan_check_contain_port : UInt16 → UInt32 → Bool

structure BindingRequest where
  env : BindingEnv
  macAddr : Bytes 6
  ip : UInt32
  vlanId : UInt16
  eth_g_index : UInt32
  opt_type : UInt32
  lease_time : UInt32
  bind_type : UInt32

namespace BindingRequest

def item (r : BindingRequest) : UserItem :=
  { UserItem.zero with
    bind_type := r.bind_type, ip_addr := r.ip, chaddr := r.macAddr, vlanId := r.vlanId,
    ifindex := r.eth_g_index, lease_time := r.lease_time }

def Allowed (r : BindingRequest) : Prop :=
  r.macAddr ≠ Bytes.zero 6 ∧ r.env.npd_dhcp_snp_check_global_status = .enableGbl ∧
    r.env.npd_dhcp_snp_check_vlan_status r.vlanId ≠ .vlanNotexist ∧
    r.env.npd_vlan_check_contain_port r.vlanId r.eth_g_index = true

/-- What `npd_dbus_dhcp_snp_add_del_binding` does after its checks: the call that it makes, or the
code that it returns. -/
def call (find : UserItem → Option UserItem) (r : BindingRequest) : Except ReturnCode TblCall :=
  if r.opt_type = bindingOperateTypeAdd then
    match find r.item with
    | some user =>
      if user.bind_type = bindTypeStatic then .error .alreadySet
      else if user.bind_type = bindTypeDynamic then
        .ok (.refreshBind user { r.item with state := bindStateBound })
      else .ok .keep
    | none => .ok (.insert { r.item with state := bindStateBound })
  else if r.opt_type = bindingOperateTypeDel then
    match find r.item with
    | some user =>
      if user.vlanId = r.vlanId ∧ user.ifindex = r.eth_g_index ∧ user.ip_addr = r.ip ∧
          user.chaddr = r.macAddr then
        .ok (.delete user)
      else .error .error
    | none => .error .error
  else .error .notFound

def answer {e : Endian} (r : BindingRequest) (t : BindingTable e) :
    Except ReturnCode TblCall → Except Fault (BindingTable e × ReturnCode)
  | .error ret => .ok (t, ret)
  | .ok call => do
    let (t, ret) ← call.run r.env.toSnpEnv t
    return (t, if ret = .ok then .ok else .error)

end BindingRequest

def npdDbusDhcpSnpAddDelBinding {e : Endian} (r : BindingRequest) (t : BindingTable e) :
    Except Fault (BindingTable e × ReturnCode) :=
  if r.macAddr = Bytes.zero 6 then .ok (t, .macIlegal)
  else if r.env.npd_dhcp_snp_check_global_status ≠ .enableGbl then
    .ok (t, r.env.npd_dhcp_snp_check_global_status)
  else if r.env.npd_dhcp_snp_check_vlan_status r.vlanId = .vlanNotexist then
    .ok (t, .vlanNotexist)
  else if r.env.npd_vlan_check_contain_port r.vlanId r.eth_g_index ≠ true then
    .ok (t, .vlanPortNoExist)
  else r.answer t (r.call (npdDhcpSnpTblItemFind r.env.toSnpEnv t))

/-! ## Events -/

inductive SnpEvent
  | packet (p : RxPacket)
  | request (r : BindingRequest)
  | timer (env : SnpEnv)

def SnpEvent.env : SnpEvent → SnpEnv
  | packet p => p.env.toSnpEnv
  | request r => r.env.toSnpEnv
  | timer env => env

def SnpStep {e : Endian} (w : SizeT) (s : SnpTable e) (ev : SnpEvent) (s' : SnpTable e) : Prop :=
  match ev with
  | .packet p => RxStep s p s'
  | .request r => ∃ ret, npdDbusDhcpSnpAddDelBinding r s.table = .ok (s'.table, ret)
  | .timer env => ∃ ret, timerRound w env s.table = .ok (s'.table, ret)

def SnpEvent.Makes {e : Endian} (w : SizeT) (s : SnpTable e) (call : TblCall) : SnpEvent → Prop
  | packet p =>
    ((p.Recorded → p.messageType = none) ∧ call = .keep) ∨
      (p.Recorded ∧ ∃ off, npdDhcpSnpGetOption p.data dhcpMessageType = some off ∧
        messageCall e s.bindings.find p.vid p.netif_index p.data p.garbage (p.data.byte off)
          (p.env.trustMode p.netif_index) = .ok call)
  | request r =>
    ((∀ call, r.Allowed → r.call s.bindings.find ≠ .ok call) ∧ call = .keep) ∨
      (r.Allowed ∧ r.call s.bindings.find = .ok call)
  | timer env => call = timerCall env.now s.bindings.find (ndsTimeout w s.table)

namespace BindingRequest

variable {e : Endian} {m : Bindings e} {r : BindingRequest} {b : UserItem} {call : TblCall}

def boundItem (r : BindingRequest) : UserItem := { r.item with state := bindStateBound }

theorem call_of_none (ht : r.opt_type = bindingOperateTypeAdd)
    (hb : m.binding r.macAddr = none) : r.call m.find = .ok (.insert r.boundItem) := by
  have hf : m.find r.item = none := hb
  rw [BindingRequest.call, if_pos ht, hf]
  rfl

theorem call_of_dynamic (ht : r.opt_type = bindingOperateTypeAdd)
    (hb : m.binding r.macAddr = some b) (hd : b.bind_type = bindTypeDynamic) :
    r.call m.find = .ok (.refreshBind b r.boundItem) := by
  have hf : m.find r.item = some b := hb
  have hsa : ¬b.bind_type = bindTypeStatic := by
    rw [hd]
    decide
  rw [BindingRequest.call, if_pos ht, hf]
  dsimp only
  rw [if_neg hsa, if_pos hd]
  rfl

theorem call_cases (h : r.call m.find = .ok call) :
    (r.opt_type = bindingOperateTypeAdd ∧ m.binding r.macAddr = none ∧
        call = .insert r.boundItem) ∨
      (r.opt_type = bindingOperateTypeAdd ∧ ∃ b, m.binding r.macAddr = some b ∧
        b.bind_type = bindTypeDynamic ∧ call = .refreshBind b r.boundItem) ∨
      ((∃ b, m.binding r.macAddr = some b ∧ b.bind_type ≠ bindTypeDynamic) ∧ call = .keep) ∨
      (r.opt_type ≠ bindingOperateTypeAdd ∧ ∃ b, m.binding r.macAddr = some b ∧
        call = .delete b) := by
  by_cases ht : r.opt_type = bindingOperateTypeAdd
  · cases hb : m.binding r.macAddr with
    | none =>
      rw [call_of_none ht hb] at h
      exact .inl ⟨ht, rfl, (ok.inj h).symm⟩
    | some b =>
      by_cases hd : b.bind_type = bindTypeDynamic
      · rw [call_of_dynamic ht hb hd] at h
        exact .inr (.inl ⟨ht, b, rfl, hd, (ok.inj h).symm⟩)
      have hf : m.find r.item = some b := hb
      rw [BindingRequest.call, if_pos ht, hf] at h
      dsimp only at h
      rw [if_neg hd] at h
      split_ifs at h
      exact .inr (.inr (.inl ⟨⟨b, rfl, hd⟩, (ok.inj h).symm⟩))
  · rw [BindingRequest.call, if_neg ht] at h
    split_ifs at h
    cases hf : m.find r.item with rw [hf] at h
    | none => simp at h
    | some b =>
      dsimp only at h
      split_ifs at h
      exact .inr (.inr (.inr ⟨ht, b, hf, (ok.inj h).symm⟩))

end BindingRequest

open BindingRequest

section

variable {e : Endian} {w : SizeT} {s s' : SnpTable e} {ev : SnpEvent} {p : RxPacket}
  {r : BindingRequest} {call : TblCall} {off : ℕ}

theorem dhcpSnpAddDelBinding_allowed (h : r.Allowed) (s : SnpTable e) :
    npdDbusDhcpSnpAddDelBinding r s.table = r.answer s.table (r.call s.bindings.find) := by
  obtain ⟨hma, hg, hv, hp⟩ := h
  have hf : npdDhcpSnpTblItemFind r.env.toSnpEnv s.table = s.bindings.find :=
    funext (s.holds.find_eq _)
  rw [npdDbusDhcpSnpAddDelBinding, if_neg hma, if_neg (not_not.mpr hg), if_neg hv,
    if_neg (not_not.mpr hp), hf]

theorem dhcpSnpAddDelBinding_refused (h : ¬r.Allowed) (t : BindingTable e) :
    ∃ ret, npdDbusDhcpSnpAddDelBinding r t = .ok (t, ret) := by
  unfold npdDbusDhcpSnpAddDelBinding
  split_ifs with hma hg hv hp
  · exact ⟨_, rfl⟩
  · exact ⟨_, rfl⟩
  · exact ⟨_, rfl⟩
  · exact ⟨_, rfl⟩
  · exact absurd ⟨hma, not_not.mp hg, hv, not_not.mp hp⟩ h

theorem BindingRequest.made {ret : ReturnCode}
    (h : npdDbusDhcpSnpAddDelBinding r s.table = .ok (s'.table, ret)) :
    ∃ call, (SnpEvent.request r).Makes w s call ∧ call.Made r.env.toSnpEnv s s' := by
  by_cases hallow : r.Allowed
  · rw [dhcpSnpAddDelBinding_allowed hallow] at h
    cases hca : r.call s.bindings.find with rw [hca] at h
    | error code =>
      have htbl : s'.table = s.table := (Prod.mk.inj (ok.inj h)).1.symm
      refine ⟨.keep, .inl ⟨fun call _ => ?_, rfl⟩, made_keep _ htbl⟩
      rw [hca]
      simp
    | ok call =>
      obtain ⟨⟨t, code⟩, hrun, h⟩ := bind_eq_ok.mp h
      obtain rfl : t = s'.table := (Prod.mk.inj (ok.inj h)).1
      exact ⟨call, .inr ⟨hallow, hca⟩, made_of_run hrun⟩
  · obtain ⟨ret', hr⟩ := dhcpSnpAddDelBinding_refused hallow s.table
    have htbl : s'.table = s.table := (Prod.mk.inj (ok.inj (hr.symm.trans h))).1.symm
    exact ⟨.keep, .inl ⟨fun _ h => absurd h hallow, rfl⟩, made_keep _ htbl⟩

theorem SnpStep.made (h : SnpStep w s ev s') :
    ∃ call, ev.Makes w s call ∧ call.Made ev.env s s' := by
  cases ev with
  | packet p =>
    rcases RxStep.cases h with ⟨hno, hmk⟩ | ⟨hr, off, call, ho, hca, hmk⟩
    · exact ⟨.keep, .inl ⟨hno, rfl⟩, hmk⟩
    · exact ⟨call, .inr ⟨hr, off, ho, hca⟩, hmk⟩
  | request r =>
    obtain ⟨ret, hrun⟩ := h
    exact made hrun
  | timer env =>
    obtain ⟨ret, hrun⟩ := h
    rw [timerRound_eq] at hrun
    exact ⟨_, rfl, made_of_run hrun⟩

theorem exists_snpStep_request (w : SizeT) (hallow : r.Allowed)
    (hca : r.call s.bindings.find = .ok call) :
    ∃ s' : SnpTable e, SnpStep w s (.request r) s' ∧ call.Made r.env.toSnpEnv s s' := by
  obtain ⟨s', hrun⟩ := call.exists_run r.env.toSnpEnv s
  have hst : npdDbusDhcpSnpAddDelBinding r s.table =
      .ok (s'.table, if call.code r.env.toSnpEnv s.bindings = .ok then .ok else .error) := by
    rw [dhcpSnpAddDelBinding_allowed hallow, hca, answer, hrun]
    rfl
  exact ⟨s', ⟨_, hst⟩, made_of_run hrun⟩

theorem exists_snpStep_timer (w : SizeT) (env : SnpEnv) (s : SnpTable e) :
    ∃ s' : SnpTable e, SnpStep w s (.timer env) s' ∧
      (timerCall env.now s.bindings.find (ndsTimeout w s.table)).Made env s s' := by
  obtain ⟨s', hrun⟩ :=
    (timerCall env.now s.bindings.find (ndsTimeout w s.table)).exists_run env s
  have hst := (timerRound_eq w env s).trans hrun
  exact ⟨s', ⟨_, hst⟩, made_of_run hrun⟩

end

end Chanos.Dhcp

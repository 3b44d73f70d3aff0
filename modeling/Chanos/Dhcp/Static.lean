import Chanos.Dhcp.System

/-!
# Static bindings

No message changes or deletes a static binding, and the timer thread deletes what has a timeout. On
the switch, where `unsigned long` has 32 bits, an infinite lease gets none (`Timed`), so that a
static binding with such a lease stays until a request deletes it (`staticKept_along`).
-/

namespace Chanos.Dhcp

open Lib Database

/-- Unless an administrator asks for it, the static bindings with an infinite lease stay. -/
def StaticKept {e : Endian} (s : SnpTable e) (ev : SnpEvent) (s' : SnpTable e) : Prop :=
  (∀ r, ev ≠ .request r) → ∀ chaddr b, s.bindings.binding chaddr = some b →
    b.bind_type = bindTypeStatic → b.lease_time = infiniteLease →
      s'.bindings.binding chaddr = some b

section

open TimerList

variable {e : Endian} {s s' : SnpTable e} {ev : SnpEvent}
  {call : TblCall} {chaddr : Bytes 6} {b : UserItem}

theorem messageCall_not_touches {p : RxPacket} {off : ℕ}
    (h : p.Calls s.bindings off call) (hb : s.bindings.binding chaddr = some b)
    (hsa : b.bind_type = bindTypeStatic) :
    ¬call.Touches chaddr := by
  -- The call is about the client of the message, which has no binding or one that is not static.
  rcases messageCall_forms h with rfl | ⟨hno, _, _, rfl⟩ | ⟨b', hb', hne, hca⟩
  · exact id
  · rintro rfl
    nomatch hno.symm.trans hb
  · have hd : p.data.chaddr ≠ chaddr := by
      rintro rfl
      exact hne (Option.mem_unique hb' hb ▸ hsa)
    have hch := s.holds.chaddr_eq hb'
    rcases hca with rfl | ⟨_, _, rfl⟩ | ⟨-, rfl⟩
    · exact fun ht => hd (hch.symm.trans ht)
    · exact hd
    · exact fun ht => hd (hch.symm.trans ht)

theorem timerCall_not_touches {now : UInt32} {l : List Timeout} (hn : deadlines chaddr l = []) :
    ¬(timerCall now s.bindings.find l).Touches chaddr := by
  unfold timerCall
  cases l with
  | nil => exact id
  | cons node l =>
    rw [npdDhcpSnpGetTimeout, List.head?_cons]
    dsimp only
    split_ifs
    · exact id
    cases hf : s.bindings.find { UserItem.zero with chaddr := node.key } with
    | none => exact id
    | some lease =>
      have hke := s.holds.chaddr_eq hf
      intro ht
      have hch : node.key = chaddr := hke.symm.trans ht
      have hme : node.deadline ∈ deadlines chaddr (node :: l) := by
        rw [← hch]
        exact mem_deadlines.mpr List.mem_cons_self
      rw [hn] at hme
      exact List.not_mem_nil hme

theorem SnpStep.staticKept (h : SnpStep .bits32 s ev s')
    (hs : Timed .bits32 (ndsTimeout .bits32 s.table) s.bindings) : StaticKept s ev s' := by
  intro hr chaddr b hb hsa hi
  obtain ⟨call, hmk, hma⟩ := h.made
  rw [hma.binding_eq, hb]
  cases ev with
  | packet p =>
    rcases hmk with ⟨-, rfl⟩ | ⟨-, off, -, hca⟩
    · exact id
    · exact messageCall_not_touches hca hb hsa
  | request r => exact absurd rfl (hr r)
  | timer env =>
    obtain rfl := hmk
    exact timerCall_not_touches (hs.deadlines_eq_nil hb ((isMaxLong_iff _).mpr ⟨rfl, hi⟩))

end

/-- **Traffic and the timer thread leave static bindings alone**: in every run from a new table, a
static binding with an infinite lease stays as it is until a request. -/
theorem staticKept_along {e : Endian} {l : List (SnpEvent × SnpTable e)}
    (hrun : Along (SnpStep .bits32) (emptyTable e) l) : Along StaticKept (emptyTable e) l := by
  refine along_of_invariant (fun s ev s' hstep hs => ⟨hstep.staticKept hs, ?_⟩) hrun
    fun _ _ => rfl
  obtain ⟨call, -, hma⟩ := hstep.made
  exact hma.timed hs

def requestEnv (now : UInt32) : BindingEnv where
  toSnpEnv := { sampleEnv with now, npd_get_port_by_index := fun _ => some false }
  npd_dhcp_snp_check_global_status := .enableGbl
  npd_dhcp_snp_check_vlan_status _ := .enVlan
  npd_vlan_check_contain_port _ _ := true

def staticRequest : BindingRequest where
  env := requestEnv 100
  macAddr := sampleBinding.chaddr
  ip := 0x0A000001
  vlanId := 1
  eth_g_index := 0x20000005
  opt_type := bindingOperateTypeAdd
  lease_time := infiniteLease
  bind_type := bindTypeStatic

def staticBinding : UserItem := { staticRequest.boundItem with sys_escape := 100 }

theorem exists_staticStep (e : Endian) :
    ∃ s : SnpTable e, SnpStep .bits32 (emptyTable e) (.request staticRequest) s ∧
      s.bindings.binding staticBinding.chaddr = some staticBinding := by
  have hallow : staticRequest.Allowed := ⟨by decide, rfl, by decide, rfl⟩
  have hr := hasRoom_empty e staticBinding.chaddr
  have hca : staticRequest.call (emptyTable e).bindings.find =
      .ok (.insert staticRequest.boundItem) := BindingRequest.call_of_none rfl rfl
  have hg : sourceGuard staticRequest.env.toSnpEnv
      { staticRequest.boundItem with sys_escape := 100 } = some staticBinding := rfl
  have hc : (TblCall.insert staticRequest.boundItem).change staticRequest.env.toSnpEnv
      (emptyTable e).bindings = .write staticBinding :=
    (TblCall.change_insert hg).trans (if_pos hr)
  obtain ⟨s, hst, hma⟩ := exists_snpStep_request .bits32 hallow hca
  have hb : s.bindings = Bindings.write .empty staticBinding := by
    rw [hma.bindings, hc]
    rfl
  exact ⟨s, hst, by rw [hb, Bindings.binding_write hr, if_pos rfl]⟩

/-- A static binding outlives a refusal for its client and a round of the timer thread. -/
theorem staticKept_along_nak :
    ∃ s s' s'' : SnpTable .little,
      Along (SnpStep .bits32) (emptyTable .little)
          [(.request staticRequest, s), (.packet nakPacket, s'), (.timer sampleEnv, s'')] ∧
        s''.bindings.binding staticBinding.chaddr = some staticBinding := by
  obtain ⟨s, hadd, hb⟩ := exists_staticStep .little
  obtain ⟨s', hnak⟩ := exists_nakStep (s := s)
  obtain ⟨s'', htimer, -⟩ := exists_snpStep_timer .bits32 sampleEnv s'
  have hrun : Along (SnpStep .bits32) (emptyTable .little)
      [(.request staticRequest, s), (.packet nakPacket, s'), (.timer sampleEnv, s'')] :=
    ⟨hadd, hnak, htimer, trivial⟩
  obtain ⟨-, hnak', htimer', -⟩ := staticKept_along hrun
  have hb' := hnak' (fun r => by simp) _ _ hb rfl rfl
  exact ⟨s, s', s'', hrun, htimer' (fun r => by simp) _ _ hb' rfl rfl⟩

end Chanos.Dhcp

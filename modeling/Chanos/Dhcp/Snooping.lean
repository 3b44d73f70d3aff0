import Chanos.Dhcp.Binding

/-!
# Handling DHCP messages

`npd_dhcp_packet_record_user_info` and the handlers of the messages that it calls. A handler makes a
binding out of the message, searches the table for the client and ends with at most one call that
changes the table. `Handled` says when none of its accesses leaves the defined behaviour of C
(`npdDhcpPacketRecordUserInfo_defined_iff`).
-/

namespace Chanos.Dhcp

open Lib Database List TblCall BoundedMap
variable {e : Endian}

inductive MessageType
  | discover
  | offer
  | request
  | decline
  | ack
  | nak
  | release
  | inform
  | unknown
  deriving DecidableEq

open MessageType

def MessageType.ofByte (message_type : UInt8) : MessageType :=
  match message_type.toNat with
  | 1 => discover
  | 2 => offer
  | 3 => request
  | 4 => decline
  | 5 => ack
  | 6 => nak
  | 7 => release
  | 8 => inform
  | _ => unknown

def portModeNotrust : UInt32 := 0

def portModeNobind : UInt32 := 1

def portModeTrust : UInt32 := 2

def requestTimeout : UInt32 := 60

def requestTimeoutNak : UInt32 := 13

/-! ## The handlers -/

def npdDhcpSnpGetItemFromPkt (e : Endian) (vlanid : UInt16) (ifindex : UInt32)
    (packet : DhcpMessage) (user : UserItem) : Except Fault UserItem :=
  let user := { user with
    vlanId := vlanid, haddr_len := packet.hlen, chaddr := packet.chaddr, ifindex := ifindex }
  if packet.op = bootreply then
    let user := { user with ifindex := 0, ip_addr := packet.yiaddr e }
    match npdDhcpSnpGetOption packet dhcpLeaseTime with
    | none => .ok user
    | some temp => do
      let lease_time ← readOption e packet (some temp)
      return { user with lease_time := Word.htonl e lease_time }
  else .ok user

section

variable (e : Endian) (find : UserItem → Option UserItem) (vlanid : UInt16) (ifindex : UInt32)
  (dhcp : DhcpMessage)

def npdDhcpSnpDiscoveryProcess : Except Fault TblCall := do
  let user ← npdDhcpSnpGetItemFromPkt e vlanid ifindex dhcp .zero
  match find user with
  | none =>
    return .insert { user with
      state := bindStateRequest, lease_time := requestTimeout, relay_ip := dhcp.giaddr e,
      xid := dhcp.xid e }
  | some temp =>
    if temp.bind_type = bindTypeDynamic then
      let lease_time :=
        if user.lease_time = 0 then
          if temp.lease_time = 0 then requestTimeout else temp.lease_time
        else user.lease_time
      return .refreshBind temp { user with
        state := bindStateRequest, relay_ip := dhcp.giaddr e, xid := dhcp.xid e, lease_time }
    else return .keep

def npdDhcpSnpOfferProcess : Except Fault TblCall := .ok .keep

def npdDhcpSnpRequestProcess : Except Fault TblCall := do
  let user ← npdDhcpSnpGetItemFromPkt e vlanid ifindex dhcp .zero
  match find user with
  | none =>
    return .insert { user with
      state := bindStateRequest, lease_time := requestTimeoutNak, relay_ip := dhcp.giaddr e,
      xid := dhcp.xid e }
  | some temp =>
    if temp.bind_type = bindTypeDynamic ∧
        (temp.ifindex ≠ ifindex ∨ temp.vlanId ≠ vlanid ∨ temp.relay_ip ≠ dhcp.giaddr e) then
      -- The address of the relay is written when it has changed, and cleared when it has not.
      let relay_ip := if temp.relay_ip ≠ dhcp.giaddr e then dhcp.giaddr e else user.relay_ip
      return .refreshBind temp { user with
        xid := dhcp.xid e, relay_ip, state := bindStateRequest, lease_time := requestTimeoutNak }
    else return .keep

def npdDhcpSnpAckProcess : Except Fault TblCall := do
  let user ← npdDhcpSnpGetItemFromPkt e vlanid ifindex dhcp .zero
  if user.ip_addr = 0 ∨ user.lease_time = 0 then return .keep
  else
    match find user with
    | none => return .keep
    | some temp =>
      if temp.bind_type = bindTypeStatic then return .keep
      else
        let server_id ← readOption e dhcp (npdDhcpSnpGetOption dhcp dhcpServerId)
        let temp := { temp with
          ip_addr := user.ip_addr, lease_time := user.lease_time, state := bindStateBound,
          server_id }
        return .refreshBind temp temp

def npdDhcpSnpNackProcess (garbage : UserItem) : Except Fault TblCall := do
  let user ← npdDhcpSnpGetItemFromPkt e vlanid ifindex dhcp garbage
  match find user with
  | none => return .keep
  | some user =>
    if user.bind_type = bindTypeStatic then return .keep
    else
      let server_id ← readOption e dhcp (npdDhcpSnpGetOption dhcp dhcpServerId)
      if user.server_id ≠ server_id then return .keep
      else if user.bind_type = bindTypeDynamic then return .delete user
      else return .keep

def npdDhcpSnpReleaseProcess : Except Fault TblCall := do
  let user ← npdDhcpSnpGetItemFromPkt e vlanid ifindex dhcp .zero
  match find user with
  | none => return .keep
  | some temp =>
    if temp.bind_type = bindTypeStatic then return .keep
    else
      let same ← npdDhcpSnpTblIdentityItem e temp user
      if same ∧ temp.bind_type = bindTypeDynamic then return .delete temp else return .keep

def messageCall (garbage : UserItem) (message_type : UInt8) (trustMode : UInt32) :
    Except Fault TblCall :=
  match ofByte message_type with
  | .discover =>
    if trustMode = portModeNobind then .ok .keep
    else npdDhcpSnpDiscoveryProcess e find vlanid ifindex dhcp
  | .offer => if trustMode = portModeNotrust then .ok .keep else npdDhcpSnpOfferProcess
  | .request =>
    if trustMode = portModeNobind then .ok .keep
    else npdDhcpSnpRequestProcess e find vlanid ifindex dhcp
  | .ack => npdDhcpSnpAckProcess e find vlanid ifindex dhcp
  | .nak => npdDhcpSnpNackProcess e find vlanid ifindex dhcp garbage
  | .release | .decline => npdDhcpSnpReleaseProcess e find vlanid ifindex dhcp
  | .inform | .unknown => .ok .keep

end

def npdDhcpPacketRecordUserInfo {e : Endian} (env : SnpEnv) (garbage : UserItem)
    (t : BindingTable e) (vid : UInt16) (netif_index : UInt32) (data : DhcpMessage)
    (message_type : UInt8) (trustMode : UInt32) : Except Fault (BindingTable e × ReturnCode) := do
  let call ← messageCall e (npdDhcpSnpTblItemFind env t) vid netif_index data garbage message_type
    trustMode
  let (t, ret) ← call.run env t
  return (t, if ret = .ok then .ok else .pktDrop)

/-! ## When a message is handled -/

def offeredLease (e : Endian) (packet : DhcpMessage) : UInt32 :=
  Word.htonl e (optionWord e packet dhcpLeaseTime)

theorem offeredLease_eq_zero {packet : DhcpMessage}
    (h : npdDhcpSnpGetOption packet dhcpLeaseTime = none) : offeredLease e packet = 0 := by
  rw [offeredLease, optionWord, h]
  exact Word.htonl_zero e

def pktItem (e : Endian) (vlanid : UInt16) (ifindex : UInt32) (packet : DhcpMessage)
    (user : UserItem) : UserItem :=
  { user with
    vlanId := vlanid
    haddr_len := packet.hlen
    chaddr := packet.chaddr
    ifindex := if packet.op = bootreply then 0 else ifindex
    ip_addr := if packet.op = bootreply then packet.yiaddr e else user.ip_addr
    lease_time :=
      if packet.op = bootreply ∧ npdDhcpSnpGetOption packet dhcpLeaseTime ≠ none then
        offeredLease e packet
      else user.lease_time }

def LeaseReadable (packet : DhcpMessage) : Prop :=
  packet.op = bootreply → NoShortTail packet dhcpLeaseTime

section

variable {e : Endian} {vlanid : UInt16} {ifindex : UInt32} {packet : DhcpMessage} {user : UserItem}

theorem getItemFromPkt_eq (h : LeaseReadable packet) :
    npdDhcpSnpGetItemFromPkt e vlanid ifindex packet user =
      .ok (pktItem e vlanid ifindex packet user) := by
  unfold npdDhcpSnpGetItemFromPkt pktItem
  by_cases hop : packet.op = bootreply
  · have ht := h hop
    cases hget : npdDhcpSnpGetOption packet dhcpLeaseTime with
    | none => simp [hop]
    | some off =>
      simp only [if_pos hop, readOption_some, if_pos (ht off hget), offeredLease, optionWord, hget]
      simp [hop]
  · simp [hop]

theorem getItemFromPkt_error (h : ¬LeaseReadable packet) :
    npdDhcpSnpGetItemFromPkt e vlanid ifindex packet user = .error .outOfBounds := by
  unfold LeaseReadable NoShortTail at h
  push Not at h
  obtain ⟨hop, off, hget, hlt⟩ := h
  unfold npdDhcpSnpGetItemFromPkt
  simp only [if_pos hop, hget, readOption_some, if_neg (Nat.not_le.mpr hlt)]
  rfl

theorem getItem_bind {α : Type} {f : UserItem → Except Fault α} (h : LeaseReadable packet) :
    (npdDhcpSnpGetItemFromPkt e vlanid ifindex packet user >>= f) =
      f (pktItem e vlanid ifindex packet user) := by
  rw [getItemFromPkt_eq h]
  rfl

theorem leaseReadable_of_hasWord (h : HasWord packet dhcpLeaseTime) : LeaseReadable packet := by
  obtain ⟨off, hf, hle⟩ := h
  intro _ off' ho
  rwa [← Option.mem_unique hf ho]

theorem getItem_bind_defined_iff {α : Type} {f : UserItem → Except Fault α} :
    (∃ r, (npdDhcpSnpGetItemFromPkt e vlanid ifindex packet user >>= f) = .ok r) ↔
      LeaseReadable packet ∧ ∃ r, f (pktItem e vlanid ifindex packet user) = .ok r := by
  by_cases h : LeaseReadable packet
  · rw [getItem_bind h, and_iff_right h]
  · rw [getItemFromPkt_error h]
    exact iff_of_false (by simp [bind, Except.bind]) fun h' => h h'.1

end

structure SnpTable (e : Endian) where
  table : BindingTable e
  bindings : Bindings e
  holds : Holds table bindings

def Bindings.HasDynamic {e : Endian} (m : Bindings e) (chaddr : Bytes 6) : Prop :=
  ∃ b, m.binding chaddr = some b ∧ b.bind_type ≠ bindTypeStatic

def Grants (e : Endian) (packet : DhcpMessage) : Prop :=
  packet.op = bootreply ∧ packet.yiaddr e ≠ 0 ∧ offeredLease e packet ≠ 0

def ComparesPast (e : Endian) (userA userB : UserItem) : Prop :=
  userA.vlanId = userB.vlanId ∧ userA.haddr_len = userB.haddr_len ∧
    (userB.ifindex ≠ 0 → userA.ifindex = userB.ifindex) ∧
    (userA.encode e).toList.drop 6 = (userB.encode e).toList.drop 6 ∧
    50 < userA.haddr_len.toNat

def MakesItem (message_type : UInt8) (trustMode : UInt32) : Prop :=
  match ofByte message_type with
  | .discover | .request => trustMode ≠ portModeNobind
  | .ack | .nak | .release | .decline => True
  | .offer | .inform | .unknown => False

@[mk_iff] structure Handled {e : Endian} (m : Bindings e) (vid : UInt16) (netif_index : UInt32)
    (data : DhcpMessage) (message_type : UInt8) (trustMode : UInt32) : Prop where
  lease : MakesItem message_type trustMode → LeaseReadable data
  ack : ofByte message_type = .ack → Grants e data → m.HasDynamic data.chaddr →
    HasWord data dhcpServerId
  nak : ofByte message_type = .nak → m.HasDynamic data.chaddr →
    HasWord data dhcpServerId
  release : ofByte message_type = .release ∨
      ofByte message_type = .decline →
    ∀ b, m.binding data.chaddr = some b → b.bind_type ≠ bindTypeStatic →
      ¬ComparesPast e b (pktItem e vid netif_index data .zero)

theorem Handled.of_options {e : Endian} {m : Bindings e} {vid : UInt16} {netif_index : UInt32}
    {data : DhcpMessage} {message_type : UInt8} {trustMode : UInt32} (hls : LeaseReadable data)
    (hid : HasWord data dhcpServerId) (hr : ¬(ofByte message_type = .release ∨
      ofByte message_type = .decline)) :
    Handled m vid netif_index data message_type trustMode :=
  ⟨fun _ => hls, fun _ _ _ => hid, fun _ _ => hid, fun ht => absurd ht hr⟩

section

variable {e : Endian} {find : UserItem → Option UserItem} {vlanid : UInt16} {ifindex : UInt32}
  {dhcp : DhcpMessage}

theorem exists_ite_ok {α : Type} {p : Prop} [Decidable p] {a b : α} :
    ∃ r, (if p then (pure a : Except Fault α) else pure b) = .ok r :=
  ⟨if p then a else b, by split_ifs <;> rfl⟩

theorem discoveryProcess_defined_iff :
    (∃ call, npdDhcpSnpDiscoveryProcess e find vlanid ifindex dhcp = .ok call) ↔
      LeaseReadable dhcp := by
  unfold npdDhcpSnpDiscoveryProcess
  rw [getItem_bind_defined_iff]
  refine and_iff_left ?_
  cases find (pktItem e vlanid ifindex dhcp .zero) with
  | none => exact ⟨_, rfl⟩
  | some temp => exact exists_ite_ok

theorem requestProcess_defined_iff :
    (∃ call, npdDhcpSnpRequestProcess e find vlanid ifindex dhcp = .ok call) ↔
      LeaseReadable dhcp := by
  unfold npdDhcpSnpRequestProcess
  rw [getItem_bind_defined_iff]
  refine and_iff_left ?_
  cases find (pktItem e vlanid ifindex dhcp .zero) with
  | none => exact ⟨_, rfl⟩
  | some temp => exact exists_ite_ok

theorem readOption_bind_defined_iff {α : Type} {code : UInt8} {f : UInt32 → Except Fault α}
    (hf : ∀ x, ∃ r, f x = .ok r) :
    (∃ r, (readOption e dhcp (npdDhcpSnpGetOption dhcp code) >>= f) = .ok r) ↔
      HasWord dhcp code := by
  constructor
  · rintro ⟨r, hr⟩
    obtain ⟨x, hx, -⟩ := bind_eq_ok.mp hr
    exact hasWord_of_readOption hx
  · intro h
    rw [readOption_of_hasWord h]
    exact hf _

/-- A handler goes on only for the dynamic entry of its client. -/
theorem found_defined_iff {o : Option UserItem} {f : UserItem → Except Fault TblCall}
    {P : UserItem → Prop} (hf : ∀ b, (∃ call, f b = .ok call) ↔ P b) :
    (∃ call : TblCall, (match o with
      | none => .ok .keep
      | some temp => if temp.bind_type = bindTypeStatic then .ok .keep else f temp) =
        Except.ok call) ↔
      ∀ b, o = some b → b.bind_type ≠ bindTypeStatic → P b := by
  cases o with
  | none => exact iff_of_true ⟨_, rfl⟩ nofun
  | some temp =>
    simp only [Option.some.injEq, forall_eq']
    split_ifs with hsa
    · exact iff_of_true ⟨_, rfl⟩ fun hne => absurd hsa hne
    · rw [forall_prop_of_true hsa, hf]

theorem pktItem_grants_iff (vlanid : UInt16) (ifindex : UInt32) :
    ¬((pktItem e vlanid ifindex dhcp .zero).ip_addr = 0 ∨
        (pktItem e vlanid ifindex dhcp .zero).lease_time = 0) ↔ Grants e dhcp := by
  unfold pktItem Grants
  by_cases hop : dhcp.op = bootreply
  · by_cases hget : npdDhcpSnpGetOption dhcp dhcpLeaseTime = none
    · simp [hop, hget, UserItem.zero, offeredLease_eq_zero hget]
    · simp [hop, hget]
  · simp [hop, UserItem.zero]

theorem ackProcess_defined_iff :
    (∃ call, npdDhcpSnpAckProcess e find vlanid ifindex dhcp = .ok call) ↔
      LeaseReadable dhcp ∧ (Grants e dhcp →
        (∃ b, find (pktItem e vlanid ifindex dhcp .zero) = some b ∧ b.bind_type ≠ bindTypeStatic) →
          HasWord dhcp dhcpServerId) := by
  unfold npdDhcpSnpAckProcess
  rw [getItem_bind_defined_iff]
  refine and_congr_right fun _ => ?_
  rw [← pktItem_grants_iff vlanid ifindex]
  split_ifs with hg
  · exact iff_of_true ⟨_, rfl⟩ (absurd hg)
  rw [forall_prop_of_true hg]
  refine (found_defined_iff fun _ => readOption_bind_defined_iff fun _ => ⟨_, rfl⟩).trans ?_
  simp only [forall_exists_index, and_imp]

theorem nackProcess_defined_iff {garbage : UserItem} :
    (∃ call, npdDhcpSnpNackProcess e find vlanid ifindex dhcp garbage = .ok call) ↔
      LeaseReadable dhcp ∧
        ((∃ b, find (pktItem e vlanid ifindex dhcp garbage) = some b ∧
            b.bind_type ≠ bindTypeStatic) → HasWord dhcp dhcpServerId) := by
  unfold npdDhcpSnpNackProcess
  rw [getItem_bind_defined_iff]
  refine and_congr_right fun _ => ?_
  refine (found_defined_iff fun _ => readOption_bind_defined_iff fun _ => ?_).trans ?_
  · split_ifs <;> exact ⟨_, rfl⟩
  · simp only [forall_exists_index, and_imp]

theorem tblIdentityItem_defined_iff {userA userB : UserItem} :
    (∃ same, npdDhcpSnpTblIdentityItem e userA userB = .ok same) ↔ ¬ComparesPast e userA userB := by
  have hlen : ∀ user : UserItem, ((user.encode e).toList.drop 6).length = 50 := by
    intro user
    rw [length_drop, Vector.toList_length]
    rfl
  unfold npdDhcpSnpTblIdentityItem ComparesPast
  split_ifs with hv hi
  · refine iff_of_true ⟨_, rfl⟩ fun h => ?_
    exact hv.elim (fun hne => hne h.1) fun hne => hne h.2.1
  · exact iff_of_true ⟨_, rfl⟩ fun h => hi.2 (h.2.2.1 hi.1)
  · rw [not_or, not_not, not_not] at hv
    rw [not_and, not_not] at hi
    have hsm := sameBytes_eq_none_iff ((hlen userA).trans (hlen userB).symm)
      (n := userA.haddr_len.toNat)
    rw [hlen userA] at hsm
    cases hcmp : sameBytes ((userA.encode e).toList.drop 6) ((userB.encode e).toList.drop 6)
        userA.haddr_len.toNat with
    | none =>
      rw [hcmp] at hsm
      exact iff_of_false (by simp) fun h =>
        h ⟨hv.1, hv.2, hi, (hsm.mp rfl).1, (hsm.mp rfl).2⟩
    | some same =>
      rw [hcmp] at hsm
      exact iff_of_true ⟨same, rfl⟩ fun h => absurd (hsm.mpr ⟨h.2.2.2.1, h.2.2.2.2⟩) (by simp)

theorem releaseProcess_defined_iff :
    (∃ call, npdDhcpSnpReleaseProcess e find vlanid ifindex dhcp = .ok call) ↔
      LeaseReadable dhcp ∧ ∀ b, find (pktItem e vlanid ifindex dhcp .zero) = some b →
        b.bind_type ≠ bindTypeStatic → ¬ComparesPast e b (pktItem e vlanid ifindex dhcp .zero) := by
  unfold npdDhcpSnpReleaseProcess
  rw [getItem_bind_defined_iff]
  refine and_congr_right fun _ => ?_
  refine found_defined_iff fun temp => ?_
  rw [← tblIdentityItem_defined_iff]
  constructor
  · rintro ⟨call, hca⟩
    obtain ⟨same, hsm, -⟩ := bind_eq_ok.mp hca
    exact ⟨same, hsm⟩
  · rintro ⟨same, hsm⟩
    rw [hsm]
    exact exists_ite_ok

end

open Bindings

section

variable {e : Endian} {t : BindingTable e} {m : Bindings e} {vid : UInt16} {netif_index : UInt32}
  {data : DhcpMessage} {message_type : UInt8} {trustMode : UInt32}

def Bindings.find (m : Bindings e) (user : UserItem) : Option UserItem := m.binding user.chaddr

theorem messageCall_garbage (m : Bindings e) (garbage garbage' : UserItem) :
    messageCall e m.find vid netif_index data garbage message_type trustMode =
      messageCall e m.find vid netif_index data garbage' message_type trustMode := by
  have hn : npdDhcpSnpNackProcess e m.find vid netif_index data garbage =
      npdDhcpSnpNackProcess e m.find vid netif_index data garbage' := by
    unfold npdDhcpSnpNackProcess
    by_cases hls : LeaseReadable data
    · rw [getItemFromPkt_eq hls, getItemFromPkt_eq hls]
      rfl
    · rw [getItemFromPkt_error hls, getItemFromPkt_error hls]
  unfold messageCall
  rw [hn]

section

variable (h : Holds t m) (env : SnpEnv)
include h

theorem packetRecordUserInfo_eq (garbage : UserItem) :
    npdDhcpPacketRecordUserInfo env garbage t vid netif_index data message_type trustMode = do
      let call ← messageCall e m.find vid netif_index data garbage message_type trustMode
      let (t, ret) ← call.run env t
      return (t, if ret = .ok then .ok else .pktDrop) := by
  have hf : npdDhcpSnpTblItemFind env t = m.find := funext (h.find_eq env)
  rw [npdDhcpPacketRecordUserInfo, hf]

theorem packetRecordUserInfo_of_call {garbage : UserItem} {call : TblCall}
    (hca : messageCall e m.find vid netif_index data garbage message_type trustMode = .ok call) :
    ∃ t', npdDhcpPacketRecordUserInfo env garbage t vid netif_index data message_type trustMode =
        .ok (t', if call.code env m = .ok then .ok else .pktDrop) ∧
      Holds t' ((call.change env m).apply m) ∧
      t'.calls = t.calls ++ (call.change env m).calls m := by
  obtain ⟨t', hrun, hh, hc⟩ := call.run_spec h env
  refine ⟨t', ?_, hh, hc⟩
  rw [packetRecordUserInfo_eq h, hca]
  dsimp only [bind, Except.bind]
  rw [hrun]
  rfl

theorem packetRecordUserInfo_memory
    (malloc : (n : ℕ) → MallocSite → Bytes n) (garbage garbage' : UserItem) :
    npdDhcpPacketRecordUserInfo (env.withMalloc malloc) garbage t vid netif_index data message_type
        trustMode =
      npdDhcpPacketRecordUserInfo env garbage' t vid netif_index data message_type trustMode := by
  rw [packetRecordUserInfo_eq h, packetRecordUserInfo_eq h, messageCall_garbage m garbage garbage']
  simp only [run_malloc h]

end

theorem messageCall_defined_iff (m : Bindings e) (garbage : UserItem) :
    (∃ call, messageCall e m.find vid netif_index data garbage message_type trustMode = .ok call) ↔
      Handled m vid netif_index data message_type trustMode := by
  rw [handled_iff]
  unfold messageCall MakesItem Bindings.HasDynamic
  cases ofByte message_type with
  | discover =>
    by_cases ht : trustMode = portModeNobind
    · simp [ht]
    · simp [ht, discoveryProcess_defined_iff]
  | request =>
    by_cases ht : trustMode = portModeNobind
    · simp [ht]
    · simp [ht, requestProcess_defined_iff]
  | offer =>
    by_cases ht : trustMode = portModeNotrust
    · simp [ht]
    · simp [ht, npdDhcpSnpOfferProcess]
  | ack =>
    simp only [ackProcess_defined_iff]
    simp [find, pktItem]
  | nak =>
    simp only [nackProcess_defined_iff]
    simp [find, pktItem]
  | release | decline =>
    simp only [releaseProcess_defined_iff]
    simp [find, pktItem]
  | inform | unknown => simp

/-- A message is handled, with one outcome whatever is in uninitialised memory, exactly when the
options that its handler reads are there and no comparison gets past the end of a binding. -/
theorem npdDhcpPacketRecordUserInfo_defined_iff (s : SnpTable e) (env : SnpEnv) (vid : UInt16)
    (netif_index : UInt32) (data : DhcpMessage) (message_type : UInt8) (trustMode : UInt32) :
    (∃ r, ∀ malloc garbage, npdDhcpPacketRecordUserInfo (env.withMalloc malloc) garbage s.table vid
        netif_index data message_type trustMode = .ok r) ↔
      Handled s.bindings vid netif_index data message_type trustMode := by
  rw [← messageCall_defined_iff s.bindings .zero]
  simp only [packetRecordUserInfo_memory s.holds env _ _ .zero]
  constructor
  · rintro ⟨r, hr⟩
    have hrun := hr env.db.malloc .zero
    rw [packetRecordUserInfo_eq s.holds] at hrun
    obtain ⟨call, hcall, -⟩ := bind_eq_ok.mp hrun
    exact ⟨call, hcall⟩
  · rintro ⟨call, hcall⟩
    obtain ⟨t', hrun, -⟩ := packetRecordUserInfo_of_call s.holds env hcall
    exact ⟨_, fun _ _ => hrun⟩

end

/-! ## Missing options -/

section

variable {e : Endian} {find : UserItem → Option UserItem} {vlanid : UInt16} {ifindex : UInt32}
  {dhcp : DhcpMessage} {b : UserItem}

theorem ackProcess_nullPointer (hls : LeaseReadable dhcp) (hg : Grants e dhcp)
    (hb : find (pktItem e vlanid ifindex dhcp .zero) = some b) (hne : b.bind_type ≠ bindTypeStatic)
    (hget : npdDhcpSnpGetOption dhcp dhcpServerId = none) :
    npdDhcpSnpAckProcess e find vlanid ifindex dhcp = .error .nullPointer := by
  rw [npdDhcpSnpAckProcess, getItem_bind hls, if_neg ((pktItem_grants_iff vlanid ifindex).mpr hg), hb]
  dsimp only
  rw [if_neg hne, hget]
  rfl

theorem nackProcess_nullPointer {garbage : UserItem} (hls : LeaseReadable dhcp)
    (hb : find (pktItem e vlanid ifindex dhcp garbage) = some b)
    (hne : b.bind_type ≠ bindTypeStatic) (hget : npdDhcpSnpGetOption dhcp dhcpServerId = none) :
    npdDhcpSnpNackProcess e find vlanid ifindex dhcp garbage = .error .nullPointer := by
  rw [npdDhcpSnpNackProcess, getItem_bind hls, hb]
  dsimp only
  rw [if_neg hne, hget]
  rfl

end

def sampleMessage (op : UInt8) (options : List UInt8) (h : options.length ≤ 1500) : DhcpMessage :=
  ⟨[op, 1, 6, 0] ++ replicate 12 0 ++ [10, 0, 0, 1] ++ replicate 8 0 ++
      [2, 0, 0, 0, 0, 1] ++ replicate 206 0 ++ options ++
      replicate (1500 - options.length) 0, by
    simp only [length_append, length_replicate, length_cons, length_nil,
      messageSize]
    omega⟩

def sampleEnv : SnpEnv where
  db := ⟨false, false, none, fun n _ => Bytes.zero n⟩
  now := 100
  npd_get_port_by_index _ := none

def sampleDiscover : DhcpMessage := sampleMessage 1 [0xFF] (by decide)

def typedDiscover : DhcpMessage := sampleMessage 1 [0x35, 1, 1, 0xFF] (by decide)

def typedAck : DhcpMessage :=
  sampleMessage 2 [0x35, 1, 5, 0x36, 4, 10, 0, 0, 254, 0x33, 4, 0, 0, 0, 60, 0xFF] (by decide)

def sampleBinding : UserItem :=
  { UserItem.zero with
    haddr_len := 6, chaddr := .six 2 0 0 0 0 1, vlanId := 1, lease_time := requestTimeout,
    sys_escape := 100, ifindex := 5 }

theorem hasRoom_empty (e : Endian) (chaddr : Bytes 6) :
    HasRoom (.empty : Bindings e) chaddr :=
  .inr (show 0 < 512 by decide)

def portBinding (port : UInt32) : UserItem := { sampleBinding with ifindex := port }

def portUser (port : UInt32) : UserItem := { sampleBinding with ifindex := port, sys_escape := 0 }

theorem exists_portTable {data : DhcpMessage} {message_type : UInt8} {trustMode : UInt32}
    (port : UInt32)
    (hca : messageCall e (find (.empty : Bindings e)) 1 port data .zero message_type
      trustMode = .ok (.insert (portUser port))) :
    ∃ t : BindingTable e,
      npdDhcpPacketRecordUserInfo sampleEnv .zero (createDbtable (npdDhcpSnpDbtable e)) 1 port
          data message_type trustMode = .ok (t, .ok) ∧
        Holds t (write .empty (portBinding port)) ∧
        t.calls = [.handleInsert ((portBinding port).encode e)] := by
  have hr := hasRoom_empty e (portBinding port).chaddr
  have hg : sourceGuard sampleEnv { portUser port with sys_escape := sampleEnv.now } =
      some (portBinding port) := rfl
  have hcg : (insert (portUser port)).change sampleEnv
      (.empty : Bindings e) = if HasRoom .empty (portBinding port).chaddr then
        .write (portBinding port) else .none := change_insert hg
  have hcd : (insert (portUser port)).code sampleEnv
      (.empty : Bindings e) = if HasRoom .empty (portBinding port).chaddr then .ok
        else .error := code_insert hg
  obtain ⟨t, hrun, hh, hc⟩ :=
    packetRecordUserInfo_of_call (holds_create e) sampleEnv hca
  rw [hcg, if_pos hr] at hh hc
  rw [hcd, if_pos hr] at hrun
  exact ⟨t, hrun, hh, hc⟩

theorem find_sampleBinding {user : UserItem} (h : user.chaddr = sampleBinding.chaddr) :
    (write (.empty : Bindings e) sampleBinding).find user = some sampleBinding := by
  rw [find, binding_write (hasRoom_empty e _), if_pos h]

def namelessReply : DhcpMessage := sampleMessage 2 [0x33, 4, 0, 0, 0, 60, 0xFF] (by decide)

/-- After a client has asked for a server, an acknowledgement or a refusal without a server
identifier is read at `NULL`. -/
theorem npdDhcpPacketRecordUserInfo_nullPointer :
    ∃ t : BindingTable .little,
      npdDhcpPacketRecordUserInfo sampleEnv .zero (createDbtable (npdDhcpSnpDbtable .little)) 1 5
          sampleDiscover 1 portModeTrust = .ok (t, .ok) ∧
        npdDhcpPacketRecordUserInfo sampleEnv .zero t 1 5 namelessReply 5 portModeTrust =
          .error .nullPointer ∧
        npdDhcpPacketRecordUserInfo sampleEnv .zero t 1 5 namelessReply 6 portModeTrust =
          .error .nullPointer := by
  have hlease : LeaseReadable namelessReply := leaseReadable_of_hasWord ⟨242, rfl, by decide⟩
  have hgrants : Grants .little namelessReply := ⟨rfl, by decide, by decide⟩
  have hget : npdDhcpSnpGetOption namelessReply dhcpServerId = none := rfl
  have hne : sampleBinding.bind_type ≠ bindTypeStatic := by decide
  have hcall : messageCall .little (find (.empty : Bindings .little)) 1 5 sampleDiscover
      .zero 1 portModeTrust = .ok (.insert { sampleBinding with sys_escape := 0 }) := rfl
  obtain ⟨t, hrun, hholds, -⟩ := exists_portTable 5 hcall
  change Holds t (write .empty sampleBinding) at hholds
  refine ⟨t, hrun, ?_, ?_⟩
  · rw [packetRecordUserInfo_eq hholds]
    change npdDhcpSnpAckProcess _ _ 1 5 namelessReply >>= _ = _
    rw [ackProcess_nullPointer hlease hgrants (find_sampleBinding rfl) hne hget]
    rfl
  · rw [packetRecordUserInfo_eq hholds]
    change npdDhcpSnpNackProcess _ _ 1 5 namelessReply .zero >>= _ = _
    rw [nackProcess_nullPointer hlease (find_sampleBinding rfl) hne hget]
    rfl

end Chanos.Dhcp

import Chanos.Database.Primary
import Chanos.Dhcp.Message

/-!
# The binding table

The table of DHCP bindings and the functions through which everything else uses it. It has two hash
indexes, by the hardware address and by the port, which compare the hardware address both.
-/

namespace Chanos.Dhcp

open Lib Database List Option BoundedMap StandsFor Word

structure UserItem where
  bind_type : UInt32
  state : UInt8
  haddr_len : UInt8
  chaddr : Bytes 6
  vlanId : UInt16
  padding : Bytes 2
  ip_addr : UInt32
  lease_time : UInt32
  sys_escape : UInt32
  cur_expire : UInt32
  ifindex : UInt32
  flags : UInt32
  have_sg : UInt32
  xid : UInt32
  server_id : UInt32
  relay_ip : UInt32
  deriving DecidableEq

open UserItem

def bindTypeDynamic : UInt32 := 0

def bindTypeStatic : UInt32 := 1

def bindStateRequest : UInt8 := 0

def bindStateBound : UInt8 := 1

def userItemSize : ℕ := 56

namespace UserItem

def zero : UserItem where
  bind_type := 0
  state := 0
  haddr_len := 0
  chaddr := Bytes.zero 6
  vlanId := 0
  padding := Bytes.zero 2
  ip_addr := 0
  lease_time := 0
  sys_escape := 0
  cur_expire := 0
  ifindex := 0
  flags := 0
  have_sg := 0
  xid := 0
  server_id := 0
  relay_ip := 0

variable (e : Endian)

def fields (u : UserItem) : List (List UInt8) :=
  [toBytes e u.bind_type, [u.state], [u.haddr_len], u.chaddr.toList, Half.toBytes e u.vlanId,
    u.padding.toList, toBytes e u.ip_addr, toBytes e u.lease_time,
    toBytes e u.sys_escape, toBytes e u.cur_expire, toBytes e u.ifindex,
    toBytes e u.flags, toBytes e u.have_sg, toBytes e u.xid,
    toBytes e u.server_id, toBytes e u.relay_ip]

def layout : List ℕ := [4, 1, 1, 6, 2, 2, 4, 4, 4, 4, 4, 4, 4, 4, 4, 4]

theorem map_length_fields (u : UserItem) : (u.fields e).map length = layout := by
  simp only [fields, layout, map_cons, map_nil, length_toBytes, Half.length_toBytes,
    List.Vector.toList_length, length_cons, length_nil]

def encode (u : UserItem) : Bytes userItemSize :=
  ⟨(u.fields e).flatten, by
    rw [List.length_flatten, map_length_fields]
    rfl⟩

def decode (b : Bytes userItemSize) : UserItem :=
  match layout.splitLengths b.toList with
  | [bt, st, hl, ch, vl, pa, ip, le, se, ce, ix, fl, sg, xi, si, ri] =>
    { bind_type := ofBytes e bt, state := st.headD 0, haddr_len := hl.headD 0,
      chaddr := Bytes.ofList 6 ch, vlanId := Half.ofBytes e vl, padding := Bytes.ofList 2 pa,
      ip_addr := ofBytes e ip, lease_time := ofBytes e le,
      sys_escape := ofBytes e se, cur_expire := ofBytes e ce,
      ifindex := ofBytes e ix, flags := ofBytes e fl, have_sg := ofBytes e sg,
      xid := ofBytes e xi, server_id := ofBytes e si, relay_ip := ofBytes e ri }
  | _ => zero

@[simp]
theorem decode_encode (u : UserItem) : decode e (u.encode e) = u := by
  have hsp : layout.splitLengths (u.encode e).toList = u.fields e := by
    rw [← map_length_fields e u]
    exact splitLengths_flatten _
  unfold decode
  rw [hsp]
  simp only [fields, Bytes.ofList_toList, ofBytes_toBytes, Half.ofBytes_toBytes, headD_cons]

end UserItem

-- A binding is read through `decode_encode`, and never by cutting up its bytes.
attribute [irreducible] decode

/-! ## The table -/

section

variable (e : Endian) (data : Bytes userItemSize)

def npdDhcpSnpDbhashIndexMacKey : ℕ :=
  ((decode e data).chaddr.toList.map UInt8.toNat).sum % 128

def npdDhcpSnpDbhashIndexKey : ℕ :=
  let user := decode e data
  let vlan := (user.vlanId.toUInt32 <<< 26).toInt32 >>> 20
  (((user.ifindex <<< 12) >>> 26) + vlan.toUInt32).toNat % 256

def npdDhcpSnpDbhashMacCompare (data1 data2 : Bytes userItemSize) : Bool :=
  (decode e data1).chaddr = (decode e data2).chaddr

def npdDhcpSnpDbhashMacIndex : HashIndex userItemSize where
  size := 128
  hash_key := some (npdDhcpSnpDbhashIndexMacKey e)
  hash_cmp := npdDhcpSnpDbhashMacCompare e

def npdDhcpSnpDbhashPortIndex : HashIndex userItemSize where
  size := 256
  hash_key := some (npdDhcpSnpDbhashIndexKey e)
  hash_cmp := npdDhcpSnpDbhashMacCompare e

def npdDhcpSnpDbtableName : Bytes 31 :=
  ⟨"npd_dhcp_snp_dbtable".toList.map (fun c => UInt8.ofNat c.toNat) ++ List.replicate 11 0, rfl⟩

abbrev npdDhcpSnpDbtable : Schema where
  name := npdDhcpSnpDbtableName
  entry_num := 512
  entry_size := userItemSize
  sync_size := userItemSize
  sync_mode := DB_SYNC_ALL
  handle_update := some fun _ _ => 0
  handle_insert := some fun _ _ => 0
  handle_delete := some fun _ _ => 0
  index_list := [.hash (npdDhcpSnpDbhashMacIndex e), .hash (npdDhcpSnpDbhashPortIndex e)]
  entry_num_lt := by decide
  entry_size_lt := by decide
  sync_size_le := le_rfl

def entryChaddr : Bytes 6 := (decode e data).chaddr

theorem dbtable_fits : (npdDhcpSnpDbtable e).Fits :=
  show 0 < userItemSize ∧ userItemSize ≤ maxSendSize - headerSize by decide

theorem dbhashMacCompare_iff (x y : Bytes userItemSize) :
    npdDhcpSnpDbhashMacCompare e x y = true ↔ entryChaddr e x = entryChaddr e y :=
  decide_eq_true_iff

attribute [irreducible] npdDhcpSnpDbhashMacCompare

theorem dbhashMacIndex_bucket (x : Bytes userItemSize) :
    (npdDhcpSnpDbhashMacIndex e).bucket x = some (npdDhcpSnpDbhashIndexMacKey e x) :=
  HashIndex.bucket_of_lt rfl (Nat.mod_lt _ (by decide))

theorem dbhashMacIndex_bucket_eq (x y : Bytes userItemSize) (h : entryChaddr e x = entryChaddr e y)
    : (npdDhcpSnpDbhashMacIndex e).bucket x = (npdDhcpSnpDbhashMacIndex e).bucket y := by
  have hx : (decode e x).chaddr = (decode e y).chaddr := h
  rw [dbhashMacIndex_bucket, dbhashMacIndex_bucket,
    npdDhcpSnpDbhashIndexMacKey, npdDhcpSnpDbhashIndexMacKey, hx]

theorem dbhashPortIndex_bucket (x : Bytes userItemSize) :
    (npdDhcpSnpDbhashPortIndex e).bucket x = some (npdDhcpSnpDbhashIndexKey e x) :=
  HashIndex.bucket_of_lt rfl (Nat.mod_lt _ (by decide))

theorem dbhashPortIndex_compares : (Index.hash (npdDhcpSnpDbhashPortIndex e)).Compares :=
  .inr
    { refl := fun a => (dbhashMacCompare_iff e a a).mpr rfl
      symm := fun {a b} h => (dbhashMacCompare_iff e b a).mpr
        ((dbhashMacCompare_iff e a b).mp h).symm
      inRange := fun a => by
        rw [Index.bucket, dbhashPortIndex_bucket, isSome_some] }

theorem bindingPrimary :
    Primary (npdDhcpSnpDbtable e) 0 (npdDhcpSnpDbhashMacIndex e) (entryChaddr e) where
  hashIndex := rfl
  cmp_iff := dbhashMacCompare_iff e
  bucket_eq := dbhashMacIndex_bucket_eq e
  inRange x := isSome_iff_exists.mpr ⟨_, dbhashMacIndex_bucket e x⟩
  others j ix hix hj := by
    have hp : ix = .hash (npdDhcpSnpDbhashPortIndex e) := by
      match j, hix, hj with
      | 1, hix, _ => exact (some.inj hix).symm
      | 0, _, hj => exact absurd rfl hj
    subst hp
    exact ⟨dbhashPortIndex_compares e, fun x y =>
      (dbhashMacCompare_iff e x y).mp⟩

end

/-! ## The functions of the table -/

structure SnpEnv where
  db : Env
  now : UInt32
  npd_get_port_by_index : UInt32 → Option Bool

inductive ReturnCode
  | ok
  | error
  | alreadySet
  | enableGbl
  | notEnableGbl
  | notFound
  | pktDrop
  | vlanNotexist
  | enVlan
  | notEnVlan
  | vlanPortNoExist
  | macIlegal
  deriving DecidableEq

def npdIfindexType (ifindex : UInt32) : UInt32 := (ifindex &&& 0xf0000000) >>> 28

def npdNetifEthType : UInt32 := 2

def sourceGuard (env : SnpEnv) (user : UserItem) : Option UserItem :=
  if user.state = bindStateBound ∧ npdIfindexType user.ifindex = npdNetifEthType then
    (env.npd_get_port_by_index user.ifindex).map fun ip_sg =>
      if ip_sg then { user with have_sg := 1 } else user
  else some user

theorem sourceGuard_eq_some {env : SnpEnv} {user user' : UserItem}
    (h : sourceGuard env user = some user') : ∃ have_sg, user' = { user with have_sg } := by
  unfold sourceGuard at h
  split_ifs at h
  · obtain ⟨ip_sg, -, h⟩ := map_eq_some_iff.mp h
    cases ip_sg with
    | true => exact ⟨1, h.symm⟩
    | false => exact ⟨user.have_sg, h.symm⟩
  · exact ⟨user.have_sg, (some.inj h).symm⟩

def SnpEnv.PortKnown (env : SnpEnv) (ifindex : UInt32) : Prop :=
  npdIfindexType ifindex = npdNetifEthType → (env.npd_get_port_by_index ifindex).isSome = true

theorem sourceGuard_isSome_iff (env : SnpEnv) (user : UserItem) :
    (sourceGuard env user).isSome = true ↔
      (user.state = bindStateBound → env.PortKnown user.ifindex) := by
  unfold sourceGuard SnpEnv.PortKnown
  split_ifs with hg
  · rw [isSome_map]
    exact ⟨fun h _ _ => h, fun h => h hg.1 hg.2⟩
  · exact iff_of_true rfl fun hst ht => absurd ⟨hst, ht⟩ hg

abbrev BindingTable (e : Endian) : Type := Table (npdDhcpSnpDbtable e)

section

variable {e : Endian} (env : SnpEnv) (t : BindingTable e)

def npdDhcpSnpTblItemFind (user : UserItem) : Option UserItem :=
  match dbtableHashSearch env.db t 0 (user.encode e) none with
  | .error _ => none
  | .ok data => some (decode e data)

def npdDhcpSnpTblItemInsert (user : UserItem) : Except Fault (BindingTable e × ReturnCode) :=
  match sourceGuard env { user with sys_escape := env.now } with
  | none => .ok (t, .error)
  | some user => do
    let (t, status) ← dbtableHashInsert env.db t 0 (user.encode e)
    return (t, if status = 0 then .ok else .error)

def npdDhcpSnpTblItemDelete (user : UserItem) : Except Fault (BindingTable e × ReturnCode) := do
  let user' := { user with have_sg := 0 }
  let t ← if user.have_sg = 0 then .ok t
    else (dbtableHashUpdate env.db t 0 (user'.encode e)).map Prod.fst
  let (t, status, _) := dbtableHashDelete env.db t 0 (user'.encode e)
  return (t, if status = 0 then .ok else .error)

def npdDhcpSnpTblIdentityItem (e : Endian) (userA userB : UserItem) : Except Fault Bool :=
  if userA.vlanId ≠ userB.vlanId ∨ userA.haddr_len ≠ userB.haddr_len then .ok false
  else if userB.ifindex ≠ 0 ∧ userA.ifindex ≠ userB.ifindex then .ok false
  else
    match sameBytes ((userA.encode e).toList.drop 6) ((userB.encode e).toList.drop 6)
        userA.haddr_len.toNat with
    | none => .error .outOfBounds
    | some same => .ok same

def refreshed (user tempUser : UserItem) : UserItem :=
  { user with
    sys_escape := env.now
    ifindex := if user.ifindex = 0 then tempUser.ifindex else user.ifindex
    vlanId := tempUser.vlanId }

def npdDhcpSnpTblRefreshBind (preuser user : UserItem) :
    Except Fault (BindingTable e × ReturnCode) :=
  match dbtableHashSearch env.db t 0 (preuser.encode e) none with
  | .error _ => .ok (t, .ok)
  | .ok data =>
    match sourceGuard env (refreshed env user (decode e data)) with
    | none => .ok (t, .error)
    | some user => do
      let (t, ret) ← dbtableHashUpdate env.db t 0 (user.encode e)
      return (t, if ret = 0 then .ok else .error)

end

inductive TblCall
  | keep
  | insert (user : UserItem)
  | refreshBind (preuser user : UserItem)
  | delete (user : UserItem)

def TblCall.run {e : Endian} (env : SnpEnv) (t : BindingTable e) :
    TblCall → Except Fault (BindingTable e × ReturnCode)
  | keep => .ok (t, .ok)
  | insert user => npdDhcpSnpTblItemInsert env t user
  | refreshBind preuser user => npdDhcpSnpTblRefreshBind env t preuser user
  | delete user => npdDhcpSnpTblItemDelete env t user

/-! ## The bindings as a map -/

abbrev Bindings (e : Endian) : Type :=
  BoundedMap (Bytes 6) (npdDhcpSnpDbtable e).Data (npdDhcpSnpDbtable e).entry_num

def Holds {e : Endian} (t : BindingTable e) (m : Bindings e) : Prop :=
  StandsFor (entryChaddr e) t.toCore m

namespace Bindings

variable {e : Endian} (m : Bindings e)

def binding (chaddr : Bytes 6) : Option UserItem := (m.lookup chaddr).map (decode e)

def write (user : UserItem) : Bindings e := m.put user.chaddr (user.encode e)

theorem binding_write {m : Bindings e} {user : UserItem} (h : m.HasRoom user.chaddr)
    (chaddr : Bytes 6) :
    (m.write user).binding chaddr = if chaddr = user.chaddr then some user else m.binding chaddr := by
  unfold binding write
  rw [lookup_put h]
  split_ifs
  · exact congrArg some (decode_encode e user)
  · rfl

theorem binding_erase (chaddr chaddr' : Bytes 6) :
    binding (m.erase chaddr) chaddr' = if chaddr' = chaddr then none else m.binding chaddr' := by
  unfold binding
  rw [lookup_erase]
  split_ifs <;> rfl

theorem mem_keys_of_binding {m : Bindings e} {chaddr : Bytes 6} {b : UserItem}
    (h : m.binding chaddr = some b) : chaddr ∈ m.keys := by
  obtain ⟨data, hd, -⟩ := map_eq_some_iff.mp h
  exact mem_keys_of_lookup hd

end Bindings

inductive Change
  | none
  | write (user : UserItem)
  | erase (user : UserItem)

def writeCall (old : Option (Bytes userItemSize)) (new : Bytes userItemSize) :
    HandlerCall userItemSize :=
  match old with
  | some old => .handleUpdate new old
  | none => .handleInsert new

namespace Change

variable {e : Endian}

def apply (m : Bindings e) : Change → Bindings e
  | none => m
  | write user => m.write user
  | erase user => m.erase user.chaddr

/-- The handlers of the table that are told of a change. -/
def calls (m : Bindings e) : Change → List (HandlerCall userItemSize)
  | none => []
  | write user => [writeCall (m.lookup user.chaddr) (user.encode e)]
  | erase user =>
    (m.lookup user.chaddr).toList.flatMap fun old =>
      if user.have_sg = 0 then [.handleDelete old]
      else
        let new := { user with have_sg := 0 }.encode e
        [.handleUpdate new old, .handleDelete new]

end Change

namespace TblCall

variable {e : Endian} (env : SnpEnv) (m : Bindings e)

/-- What is written of a binding under a condition on its client. -/
def guardedWrite (user : UserItem) (c : Bytes 6 → Prop) [DecidablePred c] : Change :=
  match sourceGuard env user with
  | none => .none
  | some user => if c user.chaddr then .write user else .none

def change : TblCall → Change
  | keep => .none
  | insert user => guardedWrite env { user with sys_escape := env.now } m.HasRoom
  | refreshBind preuser user =>
    match m.binding preuser.chaddr with
    | none => .none
    | some tempUser => guardedWrite env (refreshed env user tempUser) (· ∈ m.keys)
  | delete user => .erase user

def code : TblCall → ReturnCode
  | keep => .ok
  | insert user =>
    match sourceGuard env { user with sys_escape := env.now } with
    | none => .error
    | some user => if m.HasRoom user.chaddr then .ok else .error
  | refreshBind preuser user =>
    match m.binding preuser.chaddr with
    | none => .ok
    | some tempUser =>
      match sourceGuard env (refreshed env user tempUser) with
      | none => .error
      | some user => if user.chaddr ∈ m.keys then .ok else .error
  | delete _ => .ok

variable {env m} {user user' preuser tempUser : UserItem}

theorem guardedWrite_of_some {c : Bytes 6 → Prop} [DecidablePred c]
    (h : sourceGuard env user = some user') :
    guardedWrite env user c = if c user'.chaddr then .write user' else .none := by
  simp only [guardedWrite, h]

theorem guardedWrite_cases (env : SnpEnv) (user : UserItem) (c : Bytes 6 → Prop)
    [DecidablePred c] :
    guardedWrite env user c = .none ∨
      ∃ have_sg, guardedWrite env user c = .write { user with have_sg } ∧ c user.chaddr := by
  cases hg : sourceGuard env user with
  | none => exact .inl (by simp only [guardedWrite, hg])
  | some user' =>
    obtain ⟨have_sg, rfl⟩ := sourceGuard_eq_some hg
    rw [guardedWrite_of_some hg]
    by_cases hc : c user.chaddr
    · exact .inr ⟨have_sg, if_pos hc, hc⟩
    · exact .inl (if_neg hc)

theorem change_insert (h : sourceGuard env { user with sys_escape := env.now } = some user') :
    (insert user).change env m = if m.HasRoom user'.chaddr then .write user' else .none :=
  guardedWrite_of_some h

theorem change_refreshBind (hp : m.binding preuser.chaddr = some tempUser) :
    (refreshBind preuser user).change env m =
      guardedWrite env (refreshed env user tempUser) (· ∈ m.keys) := by
  simp only [change, hp]

theorem change_cases (env : SnpEnv) (m : Bindings e) (call : TblCall) :
    call.change env m = .none ∨ (∃ user, call = .delete user ∧ call.change env m = .erase user) ∨
      ∃ user', call.change env m = .write user' ∧ m.HasRoom user'.chaddr ∧
        ∃ user, (call = .insert user ∨ ∃ preuser, call = .refreshBind preuser user) ∧
          ∃ sys_escape ifindex vlanId have_sg,
            user' = { user with sys_escape, ifindex, vlanId, have_sg } := by
  cases call with
  | keep => exact .inl rfl
  | delete user => exact .inr (.inl ⟨user, rfl, rfl⟩)
  | insert user =>
    rcases guardedWrite_cases env { user with sys_escape := env.now } m.HasRoom with
      hn | ⟨have_sg, hw, hr⟩
    · exact .inl hn
    · exact .inr (.inr ⟨_, hw, hr, user, .inl rfl, _, _, _, _, rfl⟩)
  | refreshBind preuser user =>
    cases hp : m.binding preuser.chaddr with
    | none => exact .inl (by simp only [change, hp])
    | some tempUser =>
      rw [change_refreshBind hp]
      rcases guardedWrite_cases env (refreshed env user tempUser) (· ∈ m.keys) with
        hn | ⟨have_sg, hw, hme⟩
      · exact .inl hn
      · exact .inr (.inr ⟨_, hw, .inl hme, user, .inr ⟨preuser, rfl⟩, _, _, _, _, rfl⟩)

theorem code_insert (h : sourceGuard env { user with sys_escape := env.now } = some user') :
    (insert user).code env m = if m.HasRoom user'.chaddr then .ok else .error := by
  simp only [code, h]

end TblCall

/-! ## What the functions do to the map -/

@[simp]
theorem entryChaddr_encode (e : Endian) (user : UserItem) :
    entryChaddr e (user.encode e) = user.chaddr := by
  rw [entryChaddr, decode_encode]

theorem holds_create (e : Endian) : Holds (createDbtable (npdDhcpSnpDbtable e)) .empty :=
  standsFor_create

open TblCall

namespace Holds

variable {e : Endian} {t : BindingTable e} {m m' : Bindings e}

section

variable (h : Holds t m)
include h

theorem unique (h' : Holds t m') : m = m' := by
  ext1 chaddr
  refine ext fun v => ?_
  rw [h.slots.lookup_iff, h'.slots.lookup_iff]

theorem chaddr_eq {chaddr : Bytes 6} {b : UserItem}
    (hb : m.binding chaddr = some b) : b.chaddr = chaddr := by
  obtain ⟨data, hd, rfl⟩ := map_eq_some_iff.mp hb
  obtain ⟨id, -, hke⟩ := (h.slots.lookup_iff chaddr data).mp hd
  exact hke

theorem search_eq (env : Env) (user : UserItem) :
    dbtableHashSearch env t 0 (user.encode e) none = lookupResult (m.lookup user.chaddr) := by
  rw [StandsFor.search_eq (bindingPrimary e) h, entryChaddr_encode]

theorem find_eq (env : SnpEnv) (user : UserItem) :
    npdDhcpSnpTblItemFind env t user = m.binding user.chaddr := by
  rw [npdDhcpSnpTblItemFind, h.search_eq, Bindings.binding]
  cases m.lookup user.chaddr <;> rfl

section

variable (env : Env) (user : UserItem)

theorem insert_spec :
    let change := if m.HasRoom user.chaddr then Change.write user else .none
    ∃ t', dbtableHashInsert env t 0 (user.encode e) =
        .ok (t', if m.HasRoom user.chaddr then 0 else -1) ∧
      Holds t' (change.apply m) ∧ t'.calls = t.calls ++ change.calls m := by
  obtain ⟨t', hrun, hsd, hc⟩ := insert (bindingPrimary e) h env (user.encode e)
    (.inl (dbtable_fits e))
  rw [entryChaddr_encode] at hrun hsd hc
  refine ⟨t', hrun, ?_⟩
  split_ifs with hr
  · refine ⟨hsd, hc.trans ?_⟩
    rw [decide_eq_true hr, Change.calls]
    cases m.lookup user.chaddr <;> rfl
  · rw [put, dif_neg hr] at hsd
    rw [decide_eq_false hr, lookup_eq_none_iff.mpr fun hme => hr (.inl hme)] at hc
    exact ⟨hsd, hc.trans (append_nil _).symm⟩

theorem update_spec :
    let change := if user.chaddr ∈ m.keys then Change.write user else .none
    ∃ t', dbtableHashUpdate env t 0 (user.encode e) =
        .ok (t', if user.chaddr ∈ m.keys then 0 else -1) ∧
      Holds t' (change.apply m) ∧ t'.calls = t.calls ++ change.calls m := by
  obtain ⟨t', hrun, hsd, hc⟩ := update (bindingPrimary e) h env (user.encode e)
    (.inl (dbtable_fits e))
  rw [entryChaddr_encode] at hrun hsd hc
  refine ⟨t', hrun, ?_⟩
  split_ifs at hsd ⊢ with hme
  · obtain ⟨old, ho⟩ := isSome_iff_exists.mp ((m.mem_keys _).mp hme)
    refine ⟨hsd, hc.trans ?_⟩
    rw [Change.calls, ho]
    rfl
  · rw [lookup_eq_none_iff.mpr hme] at hc
    exact ⟨hsd, hc.trans (append_nil _).symm⟩

theorem delete_spec :
    ∃ t' old, dbtableHashDelete env t 0 (user.encode e) = (t', 0, old) ∧
      Holds t' (m.erase user.chaddr) ∧
      t'.calls = t.calls ++ (m.lookup user.chaddr).toList.map .handleDelete := by
  obtain ⟨t', hrun, hsd, hc⟩ := delete (bindingPrimary e) h env (user.encode e)
  rw [entryChaddr_encode] at hrun hsd hc
  refine ⟨t', _, hrun, hsd, hc.trans ?_⟩
  cases m.lookup user.chaddr with
  | none => exact (append_nil _).symm
  | some old => rfl

end

theorem itemInsert_spec (env : SnpEnv) (user : UserItem) :
    ∃ t', npdDhcpSnpTblItemInsert env t user = .ok (t', (insert user).code env m) ∧
      Holds t' (((insert user).change env m).apply m) ∧
      t'.calls = t.calls ++ ((insert user).change env m).calls m := by
  unfold npdDhcpSnpTblItemInsert code change guardedWrite
  dsimp only
  cases sourceGuard env { user with sys_escape := env.now } with
  | none => exact ⟨t, rfl, h, (append_nil _).symm⟩
  | some user =>
    obtain ⟨t', hrun, hh⟩ := h.insert_spec env.db user
    dsimp only
    rw [hrun]
    refine ⟨t', ?_, hh⟩
    split_ifs <;> rfl

theorem refreshBind_spec (env : SnpEnv) (preuser user : UserItem) :
    ∃ t', npdDhcpSnpTblRefreshBind env t preuser user =
        .ok (t', (refreshBind preuser user).code env m) ∧
      Holds t' (((refreshBind preuser user).change env m).apply m) ∧
      t'.calls = t.calls ++ ((refreshBind preuser user).change env m).calls m := by
  unfold npdDhcpSnpTblRefreshBind code change Bindings.binding guardedWrite
  dsimp only
  rw [h.search_eq]
  cases m.lookup preuser.chaddr with
  | none => exact ⟨t, rfl, h, (append_nil _).symm⟩
  | some old =>
    simp only [lookupResult, map_some]
    cases sourceGuard env (refreshed env user (decode e old)) with
    | none => exact ⟨t, rfl, h, (append_nil _).symm⟩
    | some user =>
      obtain ⟨t', hrun, hh⟩ := h.update_spec env.db user
      dsimp only
      rw [hrun]
      refine ⟨t', ?_, hh⟩
      split_ifs <;> rfl

theorem itemDelete_spec (env : SnpEnv) (user : UserItem) :
    ∃ t', npdDhcpSnpTblItemDelete env t user = .ok (t', .ok) ∧
      Holds t' (m.erase user.chaddr) ∧
      t'.calls = t.calls ++ (Change.erase user).calls m := by
  unfold npdDhcpSnpTblItemDelete Change.calls
  by_cases hsg : user.have_sg = 0
  · obtain ⟨t', old, hrun, hh, hc⟩ := h.delete_spec env.db { user with have_sg := 0 }
    refine ⟨t', ?_, hh, ?_⟩
    · simp only [if_pos hsg]
      dsimp only [bind, Except.bind]
      rw [hrun]
      rfl
    · rw [hc]
      cases hlk : m.lookup user.chaddr <;> simp [hsg, hlk]
  · -- The update comes first. It writes the binding that is deleted then.
    obtain ⟨t₁, hrun₁, hholds₁, hcalls₁⟩ := h.update_spec env.db { user with have_sg := 0 }
    obtain ⟨t', old, hrun, hh, hc⟩ := hholds₁.delete_spec env.db { user with have_sg := 0 }
    refine ⟨t', ?_, ?_, ?_⟩
    · simp only [if_neg hsg]
      rw [hrun₁]
      dsimp only [bind, Except.bind, Except.map]
      rw [hrun]
      rfl
    · split_ifs at hh with hme
      · exact (erase_put m _ _) ▸ hh
      · exact hh
    · rw [hc, hcalls₁]
      split_ifs with hme
      · obtain ⟨old, ho⟩ := isSome_iff_exists.mp ((m.mem_keys _).mp hme)
        simp [Change.apply, Change.calls, Bindings.write, lookup_put (.inl hme), ho, hsg, writeCall]
      · simp [Change.apply, Change.calls, lookup_eq_none_iff.mpr hme]

end

end Holds

theorem TblCall.run_spec {e : Endian} {t : BindingTable e} {m : Bindings e} (h : Holds t m)
    (env : SnpEnv) (call : TblCall) :
    ∃ t', call.run env t = .ok (t', call.code env m) ∧ Holds t' ((call.change env m).apply m) ∧
      t'.calls = t.calls ++ (call.change env m).calls m := by
  cases call with
  | keep => exact ⟨t, rfl, h, (append_nil _).symm⟩
  | insert user => exact h.itemInsert_spec env user
  | refreshBind preuser user => exact h.refreshBind_spec env preuser user
  | delete user => exact h.itemDelete_spec env user

/-! ## Uninitialised memory -/

def SnpEnv.withMalloc (env : SnpEnv) (malloc : (n : ℕ) → MallocSite → Bytes n) : SnpEnv :=
  { env with db := env.db.withMalloc malloc }

namespace Holds

variable {e : Endian} {t : BindingTable e} {m : Bindings e} (h : Holds t m) (env : SnpEnv)
  (malloc : (n : ℕ) → MallocSite → Bytes n)

include h

theorem itemInsert_malloc (user : UserItem) :
    npdDhcpSnpTblItemInsert (env.withMalloc malloc) t user =
      npdDhcpSnpTblItemInsert env t user := by
  have hi := insert_malloc (bindingPrimary e) h env.db malloc
  unfold npdDhcpSnpTblItemInsert
  dsimp only [SnpEnv.withMalloc]
  simp only [hi]
  rfl

theorem refreshBind_malloc (preuser user : UserItem) :
    npdDhcpSnpTblRefreshBind (env.withMalloc malloc) t preuser user =
      npdDhcpSnpTblRefreshBind env t preuser user := by
  have hu := update_malloc (bindingPrimary e) h env.db malloc
  unfold npdDhcpSnpTblRefreshBind
  rw [h.search_eq, h.search_eq]
  dsimp only [SnpEnv.withMalloc]
  simp only [hu]
  rfl

theorem itemDelete_malloc (user : UserItem) :
    npdDhcpSnpTblItemDelete (env.withMalloc malloc) t user =
      npdDhcpSnpTblItemDelete env t user := by
  have hp := bindingPrimary e
  obtain ⟨t', hrun, hh, -⟩ := h.update_spec env.db { user with have_sg := 0 }
  unfold npdDhcpSnpTblItemDelete
  dsimp only [SnpEnv.withMalloc]
  rw [update_malloc hp h]
  by_cases hsg : user.have_sg = 0
  · simp only [if_pos hsg]
    dsimp only [bind, Except.bind]
    rw [delete_malloc hp h]
  · -- The deletion is one of the table that the update leaves.
    simp only [if_neg hsg]
    rw [hrun]
    dsimp only [bind, Except.bind, Except.map]
    rw [delete_malloc hp hh]

end Holds

theorem TblCall.run_malloc {e : Endian} {t : BindingTable e} {m : Bindings e} (h : Holds t m)
    (env : SnpEnv) (malloc : (n : ℕ) → MallocSite → Bytes n) (call : TblCall) :
    call.run (env.withMalloc malloc) t = call.run env t := by
  cases call with
  | keep => rfl
  | insert user => exact h.itemInsert_malloc env malloc user
  | refreshBind preuser user => exact h.refreshBind_malloc env malloc preuser user
  | delete user => exact h.itemDelete_malloc env malloc user

end Chanos.Dhcp

import Chanos.Dhcp.System
import Chanos.Guard.SourceGuard

/-!
# Whether the source guard follows the bindings

A binding that becomes bound on a port with the guard gets a dynamic entry of the source guard and
the flag `have_sg`, and when it is deleted the entry goes with it. `GuardStep` is the step that an
event makes on both tables. A run stays together as long as no step takes the two apart, and not
after that (`follows_along`).
-/

namespace Chanos.Guard

open Lib Database Dhcp Option BoundedMap Bindings TblCall Except SnpEvent MessageType
variable {p : RxPacket}

abbrev Permit : Type := UInt32 × UInt32 × UInt16 × Bytes 6

def SgEntry.permit (ip : UInt32) (item : SgEntry) : Permit := (ip, item.ifIndex, item.vid, item.mac)

def itemPermit (b : UserItem) : Permit := (b.ip_addr, b.ifindex, b.vlanId, b.chaddr)

/-- The binding is bound on an Ethernet port. -/
def Guarded (b : UserItem) : Prop :=
  b.state = bindStateBound ∧ npdIfindexType b.ifindex = npdNetifEthType

instance (b : UserItem) : Decidable (Guarded b) := inferInstanceAs (Decidable (_ ∧ _))

def SgState.permits (sg : SgState) : Set Permit :=
  {t | ∃ ip item, sg.tbl.lookup ip = some item ∧ item.is_static = .dynamic ∧ item.permit ip = t}

variable {e : Endian}

def guardedPermits (m : Bindings e) : Set Permit :=
  {t | ∃ chaddr b, m.binding chaddr = some b ∧ Guarded b ∧ itemPermit b = t}

/-- The guard permits what the bound clients have. -/
def Follows (m : Bindings e) (sg : SgState) : Prop := sg.permits = guardedPermits m

def guardAdd (nam : NamIndex) (env : SnpEnv) (user : UserItem) (sg : SgState) : SgState :=
  if Guarded user ∧ env.npd_get_port_by_index user.ifindex = some true then
    (sg.npdSourceGuardEntryAdd nam user.ip_addr
      { ifIndex := user.ifindex, mac := user.chaddr, vid := user.vlanId, sg_index := 0,
        is_static := .dynamic }).1
  else sg

def guardCall (nam : NamIndex) (env : SnpEnv) (m : Bindings e) (sg : SgState) :
    TblCall → SgState
  | .keep => sg
  | .insert user => guardAdd nam env user sg
  | .refreshBind preuser user =>
    match m.binding preuser.chaddr with
    | none => sg
    | some tempUser => guardAdd nam env (refreshed env user tempUser) sg
  | .delete user =>
    if user.have_sg = 0 then sg
    else (sg.npdSourceGuardEntryDel user.ip_addr user.ifindex .dynamic).1

structure GuardSystem (e : Endian) where
  snp : SnpTable e
  sg : SgState

structure GuardEvent where
  ev : SnpEvent
  nam : NamIndex

def GuardStep (w : SizeT) (s : GuardSystem e) (a : GuardEvent) (s' : GuardSystem e) :
    Prop :=
  SnpStep w s.snp a.ev s'.snp ∧ ∃ call, a.ev.Makes w s.snp call ∧
    s'.sg = guardCall a.nam a.ev.env s.snp.bindings s.sg call

/-- The source guard is enabled on the Ethernet ports, and nothing is configured statically: the
event is a packet, a round of the timer thread or the deletion of a binding. -/
structure GuardEvent.Ordinary (a : GuardEvent) : Prop where
  enabled : ∀ port, npdIfindexType port = npdNetifEthType →
    a.ev.env.npd_get_port_by_index port ≠ some false
  no_add : ∀ r, a.ev = .request r → r.opt_type ≠ bindingOperateTypeAdd

def GuardSystem.start (e : Endian) : GuardSystem e where
  snp := emptyTable e
  sg := .npdIpSourceGuardInit

def CanBind {e : Endian} (nam : NamIndex) (m : Bindings e) (sg : SgState) (b : UserItem)
    (ip : UInt32) : Prop :=
  if Guarded b then b.ip_addr = ip
  else (∀ chaddr b', m.binding chaddr = some b' → Guarded b' → b'.ip_addr ≠ ip) ∧
    (nam.alloc (sg.pool .dynamic)).isSome = true

def MessageKeeps {e : Endian} (p : RxPacket) (nam : NamIndex) (m : Bindings e) (sg : SgState) :
    MessageType → Prop
  | .discover => p.env.trustMode p.netif_index ≠ portModeNobind →
      ∀ b, m.binding p.data.chaddr = some b → b.bind_type = bindTypeDynamic → ¬Guarded b
  | .request => p.env.trustMode p.netif_index ≠ portModeNobind →
      ∀ b, m.binding p.data.chaddr = some b → b.bind_type = bindTypeDynamic →
        Moved e p.vid p.netif_index p.data b → ¬Guarded b
  | .ack => Grants e p.data →
      ∀ b, m.binding p.data.chaddr = some b → b.bind_type ≠ bindTypeStatic →
        npdIfindexType b.ifindex = npdNetifEthType →
        (p.env.npd_get_port_by_index b.ifindex).isSome = true →
          CanBind nam m sg b (p.data.yiaddr e)
  | .offer | .nak | .release | .decline | .inform | .unknown => True

/-- The event does not take the guard and the bindings apart. -/
def GuardEvent.KeepsGuard (s : GuardSystem e) (a : GuardEvent) : Prop :=
  ∀ p type, a.ev = .packet p → p.Recorded → p.messageType = some type →
    MessageKeeps p a.nam s.snp.bindings s.sg type

def CallKeeps {e : Endian} (nam : NamIndex) (env : SnpEnv) (m : Bindings e) (sg : SgState) :
    TblCall → Prop
  | .refreshBind preuser user => ∀ b, m.binding preuser.chaddr = some b →
      if user.state = bindStateBound then
        npdIfindexType b.ifindex = npdNetifEthType →
        (env.npd_get_port_by_index b.ifindex).isSome = true → CanBind nam m sg b user.ip_addr
      else ¬Guarded b
  | .keep | .insert _ | .delete _ => True

/-! ## What the calls are -/

def OrdinaryCall (m : Bindings e) : TblCall → Prop
  | .keep => True
  | .insert user => user.state ≠ bindStateBound ∧ user.have_sg = 0 ∧ m.binding user.chaddr = none
  | .delete user => m.binding user.chaddr = some user
  | .refreshBind preuser user => ∃ b, m.binding preuser.chaddr = some b ∧
      b.chaddr = user.chaddr ∧
      (user.state ≠ bindStateBound ∧ user.have_sg = 0 ∨
        user.state = bindStateBound ∧ user.ifindex = b.ifindex ∧ user.have_sg = b.have_sg)

section

variable {e : Endian} {w : SizeT} {s : SnpTable e} {a : GuardEvent} {call call' : TblCall}

theorem makes_unique {ev : SnpEvent} (h : ev.Makes w s call) (h' : ev.Makes w s call') :
    call = call' := by
  cases ev with
  | packet p =>
    have hn : (p.Recorded → p.messageType = none) → p.Recorded →
        ∀ off, npdDhcpSnpGetOption p.data dhcpMessageType ≠ some off := by
      intro hno hr off ho
      exact absurd ((p.messageType_eq ho).symm.trans (hno hr)) (by simp)
    rcases h with ⟨hno, rfl⟩ | ⟨hr, off, ho, hca⟩
    · rcases h' with ⟨-, rfl⟩ | ⟨hr', off', ho', -⟩
      · rfl
      · exact absurd ho' (hn hno hr' off')
    · rcases h' with ⟨hno', rfl⟩ | ⟨-, off', ho', hca'⟩
      · exact absurd ho (hn hno' hr off)
      · obtain rfl := mem_unique ho ho'
        exact ok.inj (hca.symm.trans hca')
  | request r =>
    rcases h with ⟨hno, rfl⟩ | ⟨hallow, hca⟩
    · rcases h' with ⟨-, rfl⟩ | ⟨hallow', hca'⟩
      · rfl
      · exact absurd hca' (hno _ hallow')
    · rcases h' with ⟨hno', rfl⟩ | ⟨-, hca'⟩
      · exact absurd hca (hno' _ hallow)
      · exact ok.inj (hca.symm.trans hca')
  | timer env => exact h.trans h'.symm

theorem messageCall_ordinary {vlanid : UInt16} {ifindex : UInt32} {dhcp : DhcpMessage}
    {garbage : UserItem} {message_type : UInt8} {trustMode : UInt32}
    (h : messageCall e s.bindings.find vlanid ifindex dhcp garbage message_type trustMode =
      .ok call) : OrdinaryCall s.bindings call := by
  have hr : bindStateRequest ≠ bindStateBound := by decide
  rcases messageCall_forms h with
    rfl | ⟨hno, _, _, rfl⟩ | ⟨b, hb, -, rfl | ⟨_, _, rfl⟩ | ⟨-, rfl⟩⟩
  · trivial
  · exact ⟨hr, rfl, hno⟩
  · exact s.stored hb
  · exact ⟨b, s.stored hb, s.holds.chaddr_eq hb, .inl ⟨hr, rfl⟩⟩
  · exact ⟨b, s.stored hb, rfl, .inr ⟨rfl, rfl, rfl⟩⟩

theorem GuardEvent.Ordinary.ordinaryCall (ha : a.Ordinary) (h : a.ev.Makes w s call) :
    OrdinaryCall s.bindings call := by
  obtain ⟨ev, nam⟩ := a
  cases ev with
  | packet p =>
    rcases h with ⟨-, rfl⟩ | ⟨-, off, -, hca⟩
    · trivial
    · exact messageCall_ordinary hca
  | request r =>
    rcases h with ⟨-, rfl⟩ | ⟨-, hca⟩
    · trivial
    rcases BindingRequest.call_cases hca with
      ⟨had, -⟩ | ⟨had, -⟩ | ⟨-, rfl⟩ | ⟨-, b, hb, rfl⟩
    · exact absurd had (ha.no_add r rfl)
    · exact absurd had (ha.no_add r rfl)
    · trivial
    · exact s.stored hb
  | timer env =>
    obtain rfl := h
    rcases timerCall_cases env.now s (ndsTimeout w s.table) with h | ⟨b, hb, h⟩ <;> rw [h]
    exacts [trivial, hb]

end

/-! ## How the sets change -/

open SgState

section

variable {sg sg' : SgState} {nam : NamIndex} {ip : UInt32} {item : SgEntry}

theorem permits_of_update {x : Option SgEntry} (hx : ∀ item, x = some item → item.is_static = .dynamic)
    (h : ∀ ip', sg'.tbl.lookup ip' = if ip' = ip then x else sg.tbl.lookup ip') (t : Permit) :
    t ∈ sg'.permits ↔ (∃ item, x = some item ∧ t = item.permit ip) ∨ t ∈ sg.permits ∧ t.1 ≠ ip := by
  constructor
  · rintro ⟨ip', item', hlk, hd, rfl⟩
    rw [h] at hlk
    split_ifs at hlk with hip
    · rw [hip]
      exact .inl ⟨item', hlk, rfl⟩
    · exact .inr ⟨⟨ip', item', hlk, hd, rfl⟩, hip⟩
  · rintro (⟨item, hitem, rfl⟩ | ⟨⟨ip', item', hlk, hd, rfl⟩, hne⟩)
    · refine ⟨ip, item, ?_, hx item hitem, rfl⟩
      rw [h, if_pos rfl, hitem]
    · have hip : ip' ≠ ip := hne
      refine ⟨ip', item', ?_, hd, rfl⟩
      rw [h, if_neg hip, hlk]

theorem permits_of_write (hitem : item.is_static = .dynamic)
    (h : ∀ ip', sg'.tbl.lookup ip' = if ip' = ip then some item else sg.tbl.lookup ip') (t : Permit) :
    t ∈ sg'.permits ↔ t = item.permit ip ∨ t ∈ sg.permits ∧ t.1 ≠ ip := by
  simpa using permits_of_update (by simpa using hitem) h t

theorem permits_of_erase
    (h : ∀ ip', sg'.tbl.lookup ip' = if ip' = ip then none else sg.tbl.lookup ip') (t : Permit) :
    t ∈ sg'.permits ↔ t ∈ sg.permits ∧ t.1 ≠ ip := by
  simpa using permits_of_update (by simp) h t

theorem lookup_add (h : SgInvariant sg)
    (hd : ∀ ip item, sg.tbl.lookup ip = some item → item.is_static = .dynamic)
    (hitem : item.is_static = .dynamic)
    (hnu : sg.tbl.lookup ip ≠ none ∨ (nam.alloc (sg.pool .dynamic)).isSome = true) :
    ∃ n, ∀ ip', (sg.npdSourceGuardEntryAdd nam ip item).1.tbl.lookup ip' =
      if ip' = ip then some { item with sg_index := n } else sg.tbl.lookup ip' := by
  rw [npdSourceGuardEntryAdd]
  cases hlk : sg.tbl.lookup ip with
  | some original =>
    have hr : sg.tbl.HasRoom ip := .inl (mem_keys_of_lookup hlk)
    have horig := hd ip original hlk
    have ho : ¬(item.is_static = .dynamic ∧ original.is_static = .static) := by
      rw [horig]
      simp
    dsimp only
    rw [if_neg ho, if_pos (hitem.trans horig.symm)]
    exact ⟨_, lookup_put hr _⟩
  | none =>
    obtain ⟨n, hn⟩ := isSome_iff_exists.mp (hnu.resolve_left (not_not.mpr hlk))
    have hr : sg.tbl.HasRoom ip := .inr (h.card_lt hn)
    rw [addNew, allocIndex, hitem, hn]
    exact ⟨_, lookup_put hr _⟩

theorem add_of_no_number (hlk : sg.tbl.lookup ip = none) (hitem : item.is_static = .dynamic)
    (hn : nam.alloc (sg.pool .dynamic) = none) :
    (sg.npdSourceGuardEntryAdd nam ip item).1 = sg := by
  rw [npdSourceGuardEntryAdd, hlk]
  rw [addNew, allocIndex, hitem, hn]
  rfl

theorem lookup_del (hlk : sg.tbl.lookup ip = some item) (hitem : item.is_static = .dynamic)
    (ip' : UInt32) :
    (sg.npdSourceGuardEntryDel ip item.ifIndex .dynamic).1.tbl.lookup ip' =
      if ip' = ip then none else sg.tbl.lookup ip' := by
  rw [npdSourceGuardEntryDel, hlk]
  dsimp only
  rw [if_neg (not_not.mpr rfl), hitem, if_neg (by decide), if_pos rfl]
  exact lookup_erase ..

end

section

variable {e : Endian} {m : Bindings e} {u : UserItem}

variable (hkey : ∀ chaddr b, m.binding chaddr = some b → b.chaddr = chaddr)

include hkey

theorem guardedPermits_update {m' : Bindings e} {chaddr : Bytes 6} {x : Option UserItem}
    (h : ∀ chaddr', m'.binding chaddr' = if chaddr' = chaddr then x else m.binding chaddr')
    (t : Permit) :
    t ∈ guardedPermits m' ↔ (∃ b, x = some b ∧ Guarded b ∧ t = itemPermit b) ∨
      t ∈ guardedPermits m ∧ t.2.2.2 ≠ chaddr := by
  constructor
  · rintro ⟨chaddr', b, hb, hgd, rfl⟩
    rw [h] at hb
    split_ifs at hb with hch
    · exact .inl ⟨b, hb, hgd, rfl⟩
    · refine .inr ⟨⟨chaddr', b, hb, hgd, rfl⟩, ?_⟩
      rw [← hkey chaddr' b hb] at hch
      exact hch
  · rintro (⟨b, hb, hgd, rfl⟩ | ⟨⟨chaddr', b, hb, hgd, rfl⟩, hne⟩)
    · refine ⟨chaddr, b, ?_, hgd, rfl⟩
      rw [h, if_pos rfl, hb]
    have hch : chaddr' ≠ chaddr := by
      rw [← hkey chaddr' b hb]
      exact hne
    refine ⟨chaddr', b, ?_, hgd, rfl⟩
    rw [h, if_neg hch, hb]

theorem guardedPermits_write (hr : m.HasRoom u.chaddr) (t : Permit) :
    t ∈ guardedPermits (m.write u) ↔
      (Guarded u ∧ t = itemPermit u) ∨ t ∈ guardedPermits m ∧ t.2.2.2 ≠ u.chaddr := by
  simpa using guardedPermits_update hkey (binding_write hr) t

theorem guardedPermits_erase (chaddr : Bytes 6) (t : Permit) :
    t ∈ guardedPermits (m.erase chaddr : Bindings e) ↔ t ∈ guardedPermits m ∧ t.2.2.2 ≠ chaddr := by
  simpa using guardedPermits_update hkey (fun _ => Bindings.binding_erase ..) t

end

/-- Two sets in which `x` replaces what has one of its marks are the same exactly if what has one
mark has the other. -/
theorem replaced_iff {α β γ : Type*} {P : Set α} (f : α → β) (g : α → γ) {x : α} {c : γ}
    (hc : g x = c) : (∀ t, t = x ∨ t ∈ P ∧ f t ≠ f x ↔ t = x ∨ t ∈ P ∧ g t ≠ c) ↔
      ∀ t ∈ P, f t = f x ↔ g t = c := by
  grind

/-! ## One step -/

/-- The invariant that keeps the two together: all entries are dynamic, the numbers are in order,
and the flag of a binding is set exactly when it is bound on an Ethernet port. -/
structure FollowInvariant {e : Endian} (s : GuardSystem e) : Prop where
  follows : Follows s.snp.bindings s.sg
  indexes : SgInvariant s.sg
  dynamic : ∀ ip item, s.sg.tbl.lookup ip = some item → item.is_static = .dynamic
  flag : ∀ chaddr b, s.snp.bindings.binding chaddr = some b → (b.have_sg ≠ 0 ↔ Guarded b)

section

variable {e : Endian} {s s' : GuardSystem e} {nam : NamIndex} {env : SnpEnv} {b user : UserItem}
  {preuser : UserItem}

theorem GuardSystem.key (s : GuardSystem e) (chaddr : Bytes 6) (b : UserItem)
    (h : s.snp.bindings.binding chaddr = some b) : b.chaddr = chaddr := s.snp.holds.chaddr_eq h

theorem mem_guardedPermits_of_chaddr {t : Permit} (ht : t ∈ guardedPermits s.snp.bindings)
    (hb : s.snp.bindings.binding b.chaddr = some b) (hch : t.2.2.2 = b.chaddr) :
    Guarded b ∧ itemPermit b = t := by
  obtain ⟨chaddr, b', hb', hgd, rfl⟩ := ht
  rw [← hch, show (itemPermit b').2.2.2 = chaddr from s.key chaddr b' hb', hb'] at hb
  cases hb
  exact ⟨hgd, rfl⟩

theorem guardedPermits_ne_iff {chaddr : Bytes 6} :
    (∀ t ∈ guardedPermits s.snp.bindings, t.2.2.2 ≠ chaddr) ↔
      ∀ b, s.snp.bindings.binding chaddr = some b → ¬Guarded b := by
  constructor
  · exact fun hne b hb hgd => hne (itemPermit b) ⟨_, b, hb, hgd, rfl⟩ (s.key _ b hb)
  · rintro hno t ⟨chaddr', b, hb, hgd, rfl⟩ rfl
    rw [← s.key chaddr' b hb] at hb
    exact hno b hb hgd

theorem sourceGuard_of_not_guarded (env : SnpEnv) (hgd : ¬Guarded user) :
    sourceGuard env user = some user := if_neg hgd

theorem guardAdd_of_not_guarded (nam : NamIndex) (env : SnpEnv) (sg : SgState)
    (hgd : ¬Guarded user) : guardAdd nam env user sg = sg := if_neg fun h => hgd h.1

/-- The guard follows the bindings exactly if `K` does, and then the invariant is kept. -/
abbrev KeptIff (s' : GuardSystem e) (K : Prop) : Prop :=
  (Follows s'.snp.bindings s'.sg ↔ K) ∧ (K → FollowInvariant s')

variable (h : FollowInvariant s)

section

include h

theorem FollowInvariant.exists_entry {chaddr : Bytes 6}
    (hb : s.snp.bindings.binding chaddr = some b) (hgd : Guarded b) :
    ∃ item, s.sg.tbl.lookup b.ip_addr = some item ∧ item.is_static = .dynamic ∧
      item.permit b.ip_addr = itemPermit b := by
  have hme : itemPermit b ∈ guardedPermits s.snp.bindings := ⟨chaddr, b, hb, hgd, rfl⟩
  rw [← h.follows] at hme
  obtain ⟨ip, item, hlk, hd, hper⟩ := hme
  obtain rfl : ip = b.ip_addr := congrArg Prod.fst hper
  exact ⟨item, hlk, hd, hper⟩

theorem FollowInvariant.exists_client {ip : UInt32} {item : SgEntry}
    (hlk : s.sg.tbl.lookup ip = some item) :
    ∃ chaddr b, s.snp.bindings.binding chaddr = some b ∧ Guarded b ∧
      itemPermit b = item.permit ip := by
  have hme : item.permit ip ∈ s.sg.permits := ⟨ip, item, hlk, h.dynamic ip item hlk, rfl⟩
  rw [h.follows] at hme
  exact hme

theorem FollowInvariant.unchanged
    (hsnp : s'.snp.bindings = s.snp.bindings) (hsg : s'.sg = s.sg) : FollowInvariant s' := by
  obtain ⟨follows, indexes, dynamic, flag⟩ := h
  rw [← hsnp, ← hsg] at follows
  rw [← hsg] at indexes dynamic
  rw [← hsnp] at flag
  exact ⟨follows, indexes, dynamic, flag⟩

theorem FollowInvariant.write_unguarded (hr : s.snp.bindings.HasRoom user.chaddr)
    (hgd : ¬Guarded user) (hf : user.have_sg = 0)
    (hsnp : s'.snp.bindings = s.snp.bindings.write user) (hsg : s'.sg = s.sg) :
    KeptIff s' (∀ b, s.snp.bindings.binding user.chaddr = some b → ¬Guarded b) := by
  have hi : Follows s'.snp.bindings s'.sg ↔
      ∀ b, s.snp.bindings.binding user.chaddr = some b → ¬Guarded b := by
    rw [Follows, hsnp, hsg, h.follows, Set.ext_iff, ← guardedPermits_ne_iff]
    simp only [guardedPermits_write s.key hr, hgd, false_and, false_or, iff_self_and]
  refine ⟨hi, fun hno => ⟨hi.mpr hno, ?_, ?_, ?_⟩⟩
  · rw [hsg]
    exact h.indexes
  · rw [hsg]
    exact h.dynamic
  · intro chaddr b hb
    rw [hsnp, binding_write hr] at hb
    split_ifs at hb with hch
    · cases hb
      exact iff_of_false (not_not.mpr hf) hgd
    · exact h.flag chaddr b hb

theorem FollowInvariant.fst_eq_iff
    (hb : s.snp.bindings.binding b.chaddr = some b) (hgd : Guarded b) {t : Permit}
    (ht : t ∈ s.sg.permits) : t.1 = b.ip_addr ↔ t.2.2.2 = b.chaddr := by
  constructor
  · intro hip
    obtain ⟨item, hlk, -, hper⟩ := h.exists_entry hb hgd
    obtain ⟨ip', item', hlk', -, rfl⟩ := ht
    obtain rfl : ip' = b.ip_addr := hip
    obtain rfl := mem_unique hlk hlk'
    rw [hper]
    rfl
  · intro hch
    rw [h.follows] at ht
    rw [← (mem_guardedPermits_of_chaddr ht hb hch).2]
    rfl

theorem FollowInvariant.canBind_iff (hb : s.snp.bindings.binding b.chaddr = some b)
    (ip : UInt32) :
    CanBind nam s.snp.bindings s.sg b ip ↔
      (s.sg.tbl.lookup ip ≠ none ∨ (nam.alloc (s.sg.pool .dynamic)).isSome = true) ∧
        ∀ t ∈ s.sg.permits, t.1 = ip ↔ t.2.2.2 = b.chaddr := by
  unfold CanBind
  split_ifs with hgd
  · obtain ⟨item, hlk, hd, hper⟩ := h.exists_entry hb hgd
    constructor
    · rintro rfl
      exact ⟨.inl (by simp [hlk]), fun t ht => h.fst_eq_iff hb hgd ht⟩
    · exact fun hc => (hc.2 (itemPermit b) ⟨_, item, hlk, hd, hper⟩).mpr rfl
  · -- Nothing is permitted for the client.
    have hno := guardedPermits_ne_iff.mpr fun b' hb' => mem_unique hb hb' ▸ hgd
    rw [← h.follows] at hno
    constructor
    · rintro ⟨ha, hnu⟩
      refine ⟨.inr hnu, fun t ht => iff_of_false ?_ (hno t ht)⟩
      rw [h.follows] at ht
      obtain ⟨chaddr, b', hb', hgd', rfl⟩ := ht
      exact ha chaddr b' hb' hgd'
    · rintro ⟨hnu, ha⟩
      have hip : ∀ t ∈ s.sg.permits, t.1 ≠ ip := fun t ht hip => hno t ht ((ha t ht).mp hip)
      refine ⟨fun chaddr b' hb' hgd' => ?_, hnu.resolve_left fun hlk => ?_⟩
      · exact hip (itemPermit b') (h.follows ▸ ⟨chaddr, b', hb', hgd', rfl⟩)
      · obtain ⟨item, hlk⟩ := ne_none_iff_exists'.mp hlk
        exact hip _ ⟨ip, item, hlk, h.dynamic ip item hlk, rfl⟩ rfl

theorem FollowInvariant.delete (hb : s.snp.bindings.binding b.chaddr = some b)
    (hsnp : s'.snp.bindings = s.snp.bindings.erase b.chaddr)
    (hsg : s'.sg = if b.have_sg = 0 then s.sg
      else (s.sg.npdSourceGuardEntryDel b.ip_addr b.ifindex .dynamic).1) : FollowInvariant s' := by
  have he := guardedPermits_erase s.key b.chaddr
  have hf : ∀ chaddr b', s'.snp.bindings.binding chaddr = some b' →
      (b'.have_sg ≠ 0 ↔ Guarded b') := by
    intro chaddr b' hb'
    rw [hsnp, Bindings.binding_erase] at hb'
    split_ifs at hb'
    exact h.flag chaddr b' hb'
  by_cases hgd : Guarded b
  · rw [if_neg ((h.flag _ b hb).mpr hgd)] at hsg
    obtain ⟨item, hlk, hdy, hper⟩ := h.exists_entry hb hgd
    have hp : b.ifindex = item.ifIndex := (congrArg (fun t : Permit => t.2.1) hper).symm
    rw [hp] at hsg
    have hd := lookup_del hlk hdy
    rw [← hsg] at hd
    refine ⟨?_, ?_, ?_, hf⟩
    · rw [Follows, hsnp]
      ext t
      rw [permits_of_erase hd, he, ← h.follows]
      exact and_congr_right fun ht => not_congr (h.fst_eq_iff hb hgd ht)
    · rw [hsg]
      refine (h.indexes.del_iff _ _ _).2 fun item' _ _ hsa => ?_
      cases hsa
    · intro ip' item' hlk'
      rw [hd] at hlk'
      split_ifs at hlk'
      exact h.dynamic ip' item' hlk'
  · have hz : b.have_sg = 0 := by
      by_contra hne
      exact hgd ((h.flag _ b hb).mp hne)
    rw [if_pos hz] at hsg
    refine ⟨?_, hsg ▸ h.indexes, hsg ▸ h.dynamic, hf⟩
    have hno := guardedPermits_ne_iff.mpr fun b' hb' => mem_unique hb hb' ▸ hgd
    rw [Follows, hsnp, hsg, h.follows]
    ext t
    rw [he]
    exact (and_iff_left_of_imp (hno t)).symm

end

section

variable {item : SgEntry} (hb : s.snp.bindings.binding b.chaddr = some b) (hch : user.chaddr = b.chaddr)
  (hgd : Guarded user) (hitem : item.is_static = .dynamic)
  (hper : item.permit user.ip_addr = itemPermit user)
  (hsnp : s'.snp.bindings = s.snp.bindings.write user)
  (hsg : s'.sg = (s.sg.npdSourceGuardEntryAdd nam user.ip_addr item).1)

include hb hch hgd hsnp in
theorem guardedPermits_bound (t : Permit) :
    t ∈ guardedPermits s'.snp.bindings ↔
      t = itemPermit user ∨ t ∈ guardedPermits s.snp.bindings ∧ t.2.2.2 ≠ b.chaddr := by
  have hr : s.snp.bindings.HasRoom user.chaddr := by
    rw [hch]
    exact .inl (mem_keys_of_binding hb)
  rw [hsnp, guardedPermits_write s.key hr, and_iff_right hgd, hch]

include h hitem hper hsg in
theorem FollowInvariant.permits_bound (hn : s.sg.tbl.lookup user.ip_addr ≠ none ∨
      (nam.alloc (s.sg.pool .dynamic)).isSome = true) (t : Permit) :
    t ∈ s'.sg.permits ↔ t = itemPermit user ∨ t ∈ s.sg.permits ∧ t.1 ≠ user.ip_addr := by
  obtain ⟨n, hlk⟩ := lookup_add h.indexes h.dynamic hitem hn
  rw [← hsg] at hlk
  have hitem' : ({ item with sg_index := n } : SgEntry).is_static = .dynamic := hitem
  rw [permits_of_write hitem' hlk, ← hper]
  rfl

include h hb hch hgd hitem hper hsnp hsg

theorem FollowInvariant.bound_follows_iff :
    Follows s'.snp.bindings s'.sg ↔ CanBind nam s.snp.bindings s.sg b user.ip_addr := by
  have hcl := guardedPermits_bound hb hch hgd hsnp
  rw [← h.follows] at hcl
  rw [h.canBind_iff hb, Follows, Set.ext_iff]
  by_cases hn : s.sg.tbl.lookup user.ip_addr ≠ none ∨
      (nam.alloc (s.sg.pool .dynamic)).isSome = true
  · simp only [h.permits_bound hitem hper hsg hn, hcl, and_iff_right hn]
    exact replaced_iff Prod.fst (fun t : Permit => t.2.2.2) (x := itemPermit user) hch
  · refine iff_of_false (fun hf => ?_) fun hc => hn hc.1
    rw [not_or, not_not, not_isSome_iff_eq_none] at hn
    -- There is no entry for the client.
    have hme := (hf (itemPermit user)).mpr ((hcl _).mpr (.inl rfl))
    rw [hsg, add_of_no_number hn.1 hitem hn.2] at hme
    obtain ⟨ip, item', hlk', -, hper'⟩ := hme
    obtain rfl : ip = user.ip_addr := congrArg Prod.fst hper'
    nomatch hlk'.symm.trans hn.1

theorem FollowInvariant.bound (hf : user.have_sg ≠ 0)
    (hc : CanBind nam s.snp.bindings s.sg b user.ip_addr) : FollowInvariant s' := by
  have hr : s.snp.bindings.HasRoom user.chaddr := by
    rw [hch]
    exact .inl (mem_keys_of_binding hb)
  refine ⟨(h.bound_follows_iff hb hch hgd hitem hper hsnp hsg).mpr hc, ?_, ?_, ?_⟩
  · rw [hsg]
    exact h.indexes.add
  · intro ip item' hlk'
    by_cases hn : s.sg.tbl.lookup user.ip_addr ≠ none ∨
        (nam.alloc (s.sg.pool .dynamic)).isSome = true
    · obtain ⟨n, hlk⟩ := lookup_add h.indexes h.dynamic hitem hn
      rw [hsg, hlk] at hlk'
      split_ifs at hlk'
      · rw [← some.inj hlk']
        exact hitem
      · exact h.dynamic ip item' hlk'
    · rw [not_or, not_not, not_isSome_iff_eq_none] at hn
      rw [hsg, add_of_no_number hn.1 hitem hn.2] at hlk'
      exact h.dynamic ip item' hlk'
  · intro chaddr b' hb'
    rw [hsnp, binding_write hr] at hb'
    split_ifs at hb'
    · cases hb'
      exact iff_of_true hf hgd
    · exact h.flag chaddr b' hb'

end

include h in
theorem FollowInvariant.insert (hst : user.state ≠ bindStateBound)
    (hf : user.have_sg = 0) (hno : s.snp.bindings.binding user.chaddr = none)
    (hma : (insert user).Made env s.snp s'.snp)
    (hsg : s'.sg = guardCall nam env s.snp.bindings s.sg (.insert user)) : FollowInvariant s' := by
  have hgd : ¬Guarded { user with sys_escape := env.now } := fun hgd => hst hgd.1
  have hsg' : s'.sg = s.sg := hsg.trans (guardAdd_of_not_guarded nam env s.sg fun hgd => hst hgd.1)
  have hbd := hma.bindings
  rw [change_insert (sourceGuard_of_not_guarded env hgd)] at hbd
  split_ifs at hbd with hr
  · refine (h.write_unguarded hr hgd hf hbd hsg').2 fun b hb => ?_
    nomatch hno.symm.trans hb
  · exact h.unchanged hbd hsg'

section

variable (hb : s.snp.bindings.binding preuser.chaddr = some b)
  (hma : (refreshBind preuser user).Made env s.snp s'.snp)
  (hsg : s'.sg = guardCall nam env s.snp.bindings s.sg (.refreshBind preuser user))

include hb hma

theorem bindings_of_renew (hch : b.chaddr = user.chaddr) (hgd : Guarded (refreshed env user b))
    (hp : env.npd_get_port_by_index (refreshed env user b).ifindex = some true) :
    s'.snp.bindings = s.snp.bindings.write { refreshed env user b with have_sg := 1 } := by
  have hg : sourceGuard env (refreshed env user b) =
      some { refreshed env user b with have_sg := 1 } := by
    refine (if_pos hgd).trans ?_
    rw [hp]
    rfl
  have hme : (refreshed env user b).chaddr ∈ s.snp.bindings.keys := by
    change user.chaddr ∈ s.snp.bindings.keys
    rw [← hch]
    exact mem_keys_of_binding (s.snp.stored hb)
  have hbd := hma.bindings
  rw [change_refreshBind hb, guardedWrite_of_some hg, if_pos hme] at hbd
  exact hbd

include h hsg

theorem FollowInvariant.renew_unguarded (hch : b.chaddr = user.chaddr) (hgd : ¬Guarded (refreshed env user b))
    (hf : user.have_sg = 0) :
    KeptIff s' (¬Guarded b) := by
  have hb' : s.snp.bindings.binding user.chaddr = some b := by
    rw [← hch]
    exact s.snp.stored hb
  have hsg' : s'.sg = s.sg := by
    rw [hsg, guardCall, hb]
    exact guardAdd_of_not_guarded nam env s.sg hgd
  have hbd := hma.bindings
  have hme : (refreshed env user b).chaddr ∈ s.snp.bindings.keys :=
    mem_keys_of_binding hb'
  rw [change_refreshBind hb, guardedWrite_of_some (sourceGuard_of_not_guarded env hgd),
    if_pos hme] at hbd
  have hwr := h.write_unguarded (.inl hme) hgd hf hbd hsg'
  have ho : (∀ b', s.snp.bindings.binding (refreshed env user b).chaddr = some b' →
      ¬Guarded b') ↔ ¬Guarded b := by
    refine ⟨fun ha => ha b hb', fun hn b' hb'' => ?_⟩
    rw [← mem_unique hb' hb'']
    exact hn
  rw [ho] at hwr
  exact hwr

theorem FollowInvariant.renew_guarded (hch : b.chaddr = user.chaddr) (hgd : Guarded (refreshed env user b))
    (hp : env.npd_get_port_by_index (refreshed env user b).ifindex = some true) :
    KeptIff s' (CanBind nam s.snp.bindings s.sg b user.ip_addr) := by
  have hb' := s.snp.stored hb
  have hbd := bindings_of_renew hb hma hch hgd hp
  have hsg' : s'.sg = guardAdd nam env (refreshed env user b) s.sg := by rw [hsg, guardCall, hb]
  rw [guardAdd, if_pos ⟨hgd, hp⟩] at hsg'
  have hch' : ({ refreshed env user b with have_sg := 1 } : UserItem).chaddr = b.chaddr :=
    hch.symm
  have hi := h.bound_follows_iff hb' hch' hgd rfl rfl hbd hsg'
  have hin := h.bound hb' hch' hgd rfl rfl hbd hsg' (by decide : (1 : UInt32) ≠ 0)
  exact ⟨hi, hin⟩

theorem FollowInvariant.renew_unknown (hgd : Guarded (refreshed env user b))
    (hp : env.npd_get_port_by_index (refreshed env user b).ifindex = none) :
    FollowInvariant s' := by
  have hg : sourceGuard env (refreshed env user b) = none := by
    refine (if_pos hgd).trans ?_
    rw [hp]
    rfl
  have hbd := hma.bindings
  simp only [change, hb, guardedWrite, hg] at hbd
  have hsg' : s'.sg = s.sg := by
    rw [hsg, guardCall, hb]
    refine if_neg fun ha => ?_
    exact absurd (hp.symm.trans ha.2) (by simp)
  exact h.unchanged hbd hsg'

end

include h in
theorem FollowInvariant.call {call : TblCall} (hca : OrdinaryCall s.snp.bindings call)
    (he : ∀ port, npdIfindexType port = npdNetifEthType →
      env.npd_get_port_by_index port ≠ some false)
    (hma : call.Made env s.snp s'.snp)
    (hsg : s'.sg = guardCall nam env s.snp.bindings s.sg call) :
    KeptIff s' (CallKeeps nam env s.snp.bindings s.sg call) := by
  have hkp : ∀ {K : Prop}, FollowInvariant s' → K → KeptIff s' K :=
    fun hin hk => ⟨iff_of_true hin.follows hk, fun _ => hin⟩
  cases call with
  | keep => exact hkp (h.unchanged hma.bindings hsg) trivial
  | insert user =>
    obtain ⟨hst, hf, hno⟩ := hca
    exact hkp (h.insert hst hf hno hma hsg) trivial
  | delete user => exact hkp (h.delete hca hma.bindings hsg) trivial
  | refreshBind preuser user =>
    obtain ⟨b, hb, hch, ⟨hst, hf⟩ | ⟨hst, hp, hf⟩⟩ := hca
    · have hr := h.renew_unguarded hb hma hsg hch (fun hgd => hst hgd.1) hf
      have hi : CallKeeps nam env s.snp.bindings s.sg (.refreshBind preuser user) ↔ ¬Guarded b := by
        simp [CallKeeps, hb, hst]
      rw [hi]
      exact hr
    · have hi : CallKeeps nam env s.snp.bindings s.sg (.refreshBind preuser user) ↔
          (npdIfindexType b.ifindex = npdNetifEthType →
            (env.npd_get_port_by_index b.ifindex).isSome = true →
              CanBind nam s.snp.bindings s.sg b user.ip_addr) := by
        simp [CallKeeps, hb, hst]
      have hif : (refreshed env user b).ifindex = b.ifindex := by
        change (if user.ifindex = 0 then b.ifindex else user.ifindex) = b.ifindex
        rw [hp, ite_self]
      by_cases ht : npdIfindexType b.ifindex = npdNetifEthType
      · have hgd : Guarded (refreshed env user b) := ⟨hst, hif.symm ▸ ht⟩
        cases hkn : env.npd_get_port_by_index b.ifindex with
        | none =>
          refine hkp (h.renew_unknown hb hma hsg hgd (hif.symm ▸ hkn)) (hi.mpr fun _ hso => ?_)
          rw [hkn] at hso
          simp at hso
        | some ip_sg =>
          obtain rfl : ip_sg = true := by
            by_contra ho
            rw [Bool.not_eq_true] at ho
            exact he _ ht (ho ▸ hkn)
          have hr := h.renew_guarded hb hma hsg hch hgd (hif.symm ▸ hkn)
          rw [hi, forall_prop_of_true ht, hkn, forall_prop_of_true isSome_some]
          exact hr
      · have hgd : ¬Guarded b := fun hgd => ht hgd.2
        have hz : b.have_sg = 0 := by
          by_contra hne
          exact hgd ((h.flag _ b hb).mp hne)
        have hr := h.renew_unguarded hb hma hsg hch (fun hgd => ht (hif ▸ hgd.2)) (hf.trans hz)
        exact hkp (hr.2 hgd) (hi.mpr fun ht' => absurd ht' ht)

end

/-! ## Runs -/

open GuardSystem

section

variable {e : Endian} {w : SizeT} {s s' : GuardSystem e} {a : GuardEvent} {nam : NamIndex}

section

variable {s : SnpTable e} {p : RxPacket} (nam : NamIndex) (sg : SgState)

theorem callKeeps_client_iff {b : UserItem}
    {lease_time relay_ip : UInt32}
    (hb : s.bindings.binding p.data.chaddr = some b) :
    CallKeeps nam p.env.toSnpEnv s.bindings sg
      (.refreshBind b (clientItem e p.vid p.netif_index p.data lease_time relay_ip)) ↔
        ¬Guarded b := by
  have hr : bindStateRequest ≠ bindStateBound := by decide
  simp [CallKeeps, s.stored hb, clientItem, hr]

theorem messageCall_keeps_iff {off : ℕ} {call : TblCall} (h : p.Calls s.bindings off call) :
    CallKeeps nam p.env.toSnpEnv s.bindings sg call ↔
      MessageKeeps p nam s.bindings sg (.ofByte (p.data.byte off)) := by
  unfold RxPacket.Calls messageCall at h
  cases hty : ofByte (p.data.byte off) with simp only [hty] at h
  | discover =>
    split_ifs at h with ht
    · cases h
      exact iff_of_true trivial (absurd ht)
    rcases discoveryProcess_cases h with
      ⟨hno, rfl⟩ | ⟨b, hb, hd, rfl⟩ | ⟨b, hb, hd, rfl⟩
    · exact iff_of_true trivial (by simp [MessageKeeps, hno])
    · rw [callKeeps_client_iff nam sg hb]
      simp [MessageKeeps, ht, hb, hd]
    · exact iff_of_true trivial (by simp [MessageKeeps, hb, hd])
  | request =>
    split_ifs at h with ht
    · cases h
      exact iff_of_true trivial (absurd ht)
    rcases requestProcess_cases h with
      ⟨hno, rfl⟩ | ⟨b, hb, hd, hmv, relay_ip, rfl⟩ | ⟨b, hb, hn, rfl⟩
    · exact iff_of_true trivial (by simp [MessageKeeps, hno])
    · rw [callKeeps_client_iff nam sg hb]
      simp [MessageKeeps, ht, hb, hd, hmv]
    · refine iff_of_true trivial ?_
      simp only [MessageKeeps, hb, some.injEq, forall_eq']
      exact fun _ hd hmv => absurd ⟨hd, hmv⟩ hn
  | ack =>
    rcases ackProcess_cases h with ⟨hg, b, hb, hne, rfl⟩ | ⟨hn, rfl⟩
    · have hp : s.bindings.binding (ackedItem e p.data b).chaddr = some b := s.stored hb
      rw [MessageKeeps, forall_prop_of_true hg]
      simp only [CallKeeps, hp, hb, some.injEq, forall_eq', hne, ne_eq,
        not_false_eq_true, forall_const]
      exact Iff.rfl
    · exact iff_of_true trivial fun hg b hb hne => absurd ⟨hg, b, hb, hne⟩ hn
  | nak => rcases nackProcess_cases h with ⟨b, -, -, -, rfl⟩ | ⟨-, rfl⟩ <;> exact Iff.rfl
  | release | decline => rcases releaseProcess_cases h with rfl | ⟨b, -, -, rfl⟩ <;> exact Iff.rfl
  | offer => split_ifs at h <;> cases h <;> exact Iff.rfl
  | inform | unknown =>
    cases h
    exact Iff.rfl

end

theorem GuardEvent.Ordinary.keeps_iff {call : TblCall} (ha : a.Ordinary)
    (h : a.ev.Makes w s.snp call) :
    CallKeeps a.nam a.ev.env s.snp.bindings s.sg call ↔ a.KeepsGuard s := by
  obtain ⟨ev, nam⟩ := a
  cases ev with
  | packet p =>
    rcases h with ⟨hno, rfl⟩ | ⟨hr, off, ho, hca⟩
    · refine iff_of_true trivial fun p' type hp hr ht => ?_
      cases hp
      exact absurd (ht.symm.trans (hno hr)) (by simp)
    · have ht := p.messageType_eq ho
      refine (messageCall_keeps_iff nam s.sg hca).trans ⟨fun hkp p' type hp _ ht' => ?_,
        fun hkp => hkp p _ rfl hr ht⟩
      cases hp
      obtain rfl := mem_unique ht ht'
      exact hkp
  | request r =>
    refine iff_of_true ?_ fun p type hp => absurd hp (by simp)
    rcases h with ⟨-, rfl⟩ | ⟨-, h⟩
    · trivial
    rcases BindingRequest.call_cases h with
      ⟨had, -⟩ | ⟨had, -⟩ | ⟨-, rfl⟩ | ⟨-, b, -, rfl⟩
    · exact absurd had (ha.no_add r rfl)
    · exact absurd had (ha.no_add r rfl)
    · trivial
    · trivial
  | timer env =>
    refine iff_of_true ?_ fun p type hp => absurd hp (by simp)
    obtain rfl := h
    rcases timerCall_cases env.now s.snp (ndsTimeout w s.snp.table) with h | ⟨b, -, h⟩
    all_goals
      rw [h]
      trivial

theorem FollowInvariant.step (h : FollowInvariant s) (ha : a.Ordinary) (hse : GuardStep w s a s') :
    KeptIff s' (a.KeepsGuard s) := by
  obtain ⟨hsnp, call, hmk, hsg⟩ := hse
  obtain ⟨call', hmk', hma⟩ := hsnp.made
  obtain rfl := makes_unique hmk hmk'
  have hca := h.call (ha.ordinaryCall hmk) ha.enabled hma hsg
  rw [ha.keeps_iff hmk] at hca
  exact hca

theorem followInvariant_start (e : Endian) : FollowInvariant (start e) where
  follows := by
    have hno : ∀ chaddr, (emptyTable e).bindings.binding chaddr = none := fun _ => rfl
    ext t
    constructor
    · rintro ⟨ip, item, hlk, -⟩
      cases hlk
    · rintro ⟨chaddr, b, hb, -⟩
      exact absurd ((hno chaddr).symm.trans hb) (by simp)
  indexes := sgInvariant_init
  dynamic ip item hlk :=
    absurd hlk (by simp [start, npdIpSourceGuardInit, empty])
  flag chaddr b hb := by
    have hno : (emptyTable e).bindings.binding chaddr = none := rfl
    exact absurd (hno.symm.trans hb) (by simp)

/-- In a run of ordinary events from the beginning, the source guard follows the bindings after
each step exactly when all the events keep the two together. -/
theorem follows_along {l : List (GuardEvent × GuardSystem e)}
    (hrun : Along (fun s a s' => a.Ordinary ∧ GuardStep w s a s') (.start e) l) :
    Along (fun _ _ s' => Follows s'.snp.bindings s'.sg) (.start e) l ↔
      Along (fun s (a : GuardEvent) _ => a.KeepsGuard s) (.start e) l :=
  along_iff_of_invariant (fun _ _ _ hstep h => h.step hstep.1 hstep.2) hrun (followInvariant_start e)

end

/-! ## A client that asks again -/

def guardEnv : RxEnv where
  toSnpEnv := { sampleEnv with npd_get_port_by_index := fun _ => some true }
  product_basemac := Bytes.zero 6
  global_cfg := some ⟨true, fun _ => true⟩
  relay_enable := false
  status_item _ := some portModeTrust
  forward := .ok

def portDiscover : RxPacket :=
  ⟨guardEnv, .zero, typedDiscover, 0x20000001, 1⟩

def portAck : RxPacket :=
  ⟨guardEnv, .zero, typedAck, 0x20000002, 1⟩

def packetEvent (p : RxPacket) : GuardEvent := ⟨.packet p, firstFree⟩

theorem ordinary_packetEvent (hp : p.env = guardEnv) : (packetEvent p).Ordinary where
  enabled port _ := by
    change p.env.npd_get_port_by_index port ≠ some false
    rw [hp]
    exact fun h => absurd (some.inj h) (by decide)
  no_add r h := absurd h (by simp [packetEvent])

theorem recorded_of_guardEnv (hp : p.env = guardEnv)
    (hma : p.data.chaddr ≠ Bytes.zero 6) : p.Recorded := by
  refine ⟨?_, ?_, fun _ => ?_⟩
  · rw [hp]
    exact hma
  · rw [hp]
    rfl
  · unfold RxPacket.Trusted
    rw [hp]
    exact show portModeTrust ≠ portModeNotrust by decide

theorem exists_guardStep (w : SizeT) (s : GuardSystem e) {off : ℕ}
    (hr : p.Recorded) (ho : npdDhcpSnpGetOption p.data dhcpMessageType = some off)
    (hh : Handled s.snp.bindings p.vid p.netif_index p.data (p.data.byte off)
      (p.env.trustMode p.netif_index)) :
    ∃ s' call, GuardStep w s (packetEvent p) s' ∧
      messageCall e s.snp.bindings.find p.vid p.netif_index p.data p.garbage (p.data.byte off)
        (p.env.trustMode p.netif_index) = .ok call ∧
      call.Made p.env.toSnpEnv s.snp s'.snp := by
  obtain ⟨snp, hsnp⟩ := exists_rxStep_of_handled hr ho hh
  have hse : SnpStep w s.snp (.packet p) snp := hsnp
  obtain ⟨call, hmk, hma⟩ := hse.made
  refine ⟨⟨snp, guardCall firstFree p.env.toSnpEnv s.snp.bindings s.sg call⟩, call,
    ⟨hse, call, hmk, rfl⟩, ?_, hma⟩
  rcases hmk with ⟨hno, -⟩ | ⟨-, off', ho', hca⟩
  · exact absurd ((p.messageType_eq ho).symm.trans (hno hr)) (by simp)
  · obtain rfl := mem_unique ho ho'
    exact hca

def portClient : Bytes 6 := .six 2 0 0 0 0 1

theorem exists_portDiscover (s : GuardSystem .little) :
    ∃ s' call, GuardStep .bits32 s (packetEvent portDiscover) s' ∧
      npdDhcpSnpDiscoveryProcess .little s.snp.bindings.find 1 0x20000001 portDiscover.data =
        .ok call ∧ call.Made guardEnv.toSnpEnv s.snp s'.snp := by
  have hr := recorded_of_guardEnv (p := portDiscover) rfl (by decide)
  have hh : Handled s.snp.bindings 1 0x20000001 portDiscover.data 1 portModeTrust :=
    { lease := nofun
      ack := nofun
      nak := nofun
      release := nofun }
  exact exists_guardStep .bits32 s hr
    (show npdDhcpSnpGetOption portDiscover.data dhcpMessageType = some 242 from rfl) hh

theorem exists_portAck (s : GuardSystem .little) :
    ∃ s' call, GuardStep .bits32 s (packetEvent portAck) s' ∧
      npdDhcpSnpAckProcess .little s.snp.bindings.find 1 0x20000002 portAck.data = .ok call ∧
        call.Made guardEnv.toSnpEnv s.snp s'.snp := by
  have hr := recorded_of_guardEnv (p := portAck) rfl (by decide)
  have hh : Handled s.snp.bindings 1 0x20000002 portAck.data 5 portModeTrust :=
    .of_options (leaseReadable_of_hasWord ⟨251, rfl, by decide⟩) ⟨245, rfl, by decide⟩ (by decide)
  have ho : npdDhcpSnpGetOption portAck.data dhcpMessageType = some 242 := rfl
  have hby : portAck.data.byte 242 = 5 := rfl
  obtain ⟨s', call, hse, hca, hma⟩ := exists_guardStep .bits32 s hr ho (hby ▸ hh)
  rw [hby] at hca
  exact ⟨s', call, hse, hca, hma⟩

theorem exists_portAsked :
    ∃ s : GuardSystem .little, GuardStep .bits32 (.start .little) (packetEvent portDiscover) s ∧
      ∃ b : UserItem, b.chaddr = portClient ∧ b.bind_type = bindTypeDynamic ∧
        b.state = bindStateRequest ∧ b.ifindex = 0x20000001 ∧
        ∀ chaddr, s.snp.bindings.binding chaddr = if chaddr = portClient then some b else none := by
  obtain ⟨s, call, hse, hca, hma⟩ := exists_portDiscover (.start .little)
  refine ⟨s, hse, ?_⟩
  have hno : ∀ chaddr, (start .little).snp.bindings.binding chaddr = none := fun _ => rfl
  rcases discoveryProcess_cases hca with ⟨-, rfl⟩ | ⟨b, hb, -⟩ | ⟨b, hb, -⟩
  · have hr : ∀ chaddr, (start .little).snp.bindings.HasRoom chaddr :=
      hasRoom_empty .little
    have hbd := hma.bindings
    rw [change_insert (sourceGuard_of_not_guarded _ fun hgd =>
      absurd hgd.1 (show bindStateRequest ≠ bindStateBound by decide)),
      if_pos (hr _)] at hbd
    refine ⟨{ clientItem .little 1 0x20000001 portDiscover.data requestTimeout
      (portDiscover.data.giaddr .little) with sys_escape := guardEnv.now },
      rfl, rfl, rfl, rfl, fun chaddr => ?_⟩
    rw [hbd, Change.apply, binding_write (hr _), hno]
    rfl
  all_goals exact absurd ((hno _).symm.trans hb) (by simp)

theorem bound_of_portAck {s s' : GuardSystem .little} {call : TblCall} {b : UserItem}
    (hca : npdDhcpSnpAckProcess .little s.snp.bindings.find 1 0x20000002 portAck.data = .ok call)
    (hma : call.Made guardEnv.toSnpEnv s.snp s'.snp)
    (hb : s.snp.bindings.binding portClient = some b) (hd : b.bind_type = bindTypeDynamic)
    (hpt : b.ifindex = 0x20000001) :
    ∃ b', s'.snp.bindings.binding portClient = some b' ∧ b'.bind_type = bindTypeDynamic ∧
      Guarded b' := by
  have hg : Grants .little portAck.data := ⟨rfl, by decide, by decide⟩
  have hsa : b.bind_type ≠ bindTypeStatic := by
    rw [hd]
    decide
  rcases ackProcess_cases hca with ⟨-, b', hb', -, rfl⟩ | ⟨hn, -⟩
  · obtain rfl : b' = b := some.inj (Eq.trans (Eq.symm hb') hb)
    have hp : s.snp.bindings.binding (ackedItem .little portAck.data b').chaddr = some b' :=
      s.snp.stored hb
    have hgd : Guarded (refreshed guardEnv.toSnpEnv (ackedItem .little portAck.data b') b') := by
      refine ⟨rfl, ?_⟩
      change npdIfindexType (if b'.ifindex = 0 then b'.ifindex else b'.ifindex) = npdNetifEthType
      rw [ite_self, hpt]
      decide
    have hr : s.snp.bindings.HasRoom portClient := .inl (mem_keys_of_binding hb)
    have hch : b'.chaddr = portClient := s.key portClient b' hb
    rw [← hch] at hr
    have ha : b'.chaddr = (ackedItem .little portAck.data b').chaddr := rfl
    have hbs := bindings_of_renew hp hma ha hgd rfl
    have hbd : s'.snp.bindings.binding portClient =
        some { refreshed guardEnv.toSnpEnv (ackedItem .little portAck.data b') b' with
          have_sg := 1 } := by
      rw [hbs, binding_write]
      · exact if_pos hch.symm
      · exact hr
    exact ⟨_, hbd, hd, hgd⟩
  · exact absurd ⟨hg, b, hb, hsa⟩ hn

theorem keepsGuard_portDiscover : (packetEvent portDiscover).KeepsGuard (start .little) := by
  intro p type hp _ ht
  cases hp
  obtain rfl : discover = type := some.inj ht
  exact nofun

/-- A client asks for a server and is bound. -/
theorem exists_portBound :
    ∃ s₁ s₂ : GuardSystem .little,
      Along (fun s a s' => a.Ordinary ∧ GuardStep .bits32 s a s') (.start .little)
        [(packetEvent portDiscover, s₁), (packetEvent portAck, s₂)] ∧
      Along (fun s (a : GuardEvent) _ => a.KeepsGuard s) (.start .little)
        [(packetEvent portDiscover, s₁), (packetEvent portAck, s₂)] ∧
      FollowInvariant s₂ ∧ ∃ b, s₂.snp.bindings.binding portClient = some b ∧
        b.bind_type = bindTypeDynamic ∧ Guarded b := by
  have hdi := ordinary_packetEvent (p := portDiscover) rfl
  have hack := ordinary_packetEvent (p := portAck) rfl
  obtain ⟨s₁, hs₁, b, -, hdy, hst, hpt, honly⟩ := exists_portAsked
  obtain ⟨s₂, call, hs₂, hca, hma⟩ := exists_portAck s₁
  have hub : ¬Guarded b := by
    rintro ⟨hbo, -⟩
    nomatch hst.symm.trans hbo
  have hno : ∀ chaddr b', s₁.snp.bindings.binding chaddr = some b' → ¬Guarded b' := by
    intro chaddr b' hb'
    rw [honly] at hb'
    split_ifs at hb'
    exact some.inj hb' ▸ hub
  have hb : s₁.snp.bindings.binding portClient = some b := (honly _).trans (if_pos rfl)
  have hin : FollowInvariant s₁ :=
    ((followInvariant_start .little).step hdi hs₁).2 keepsGuard_portDiscover
  have hkp : (packetEvent portAck).KeepsGuard s₁ := by
    intro p type hp _ ht
    cases hp
    obtain rfl : MessageType.ack = type := some.inj ht
    intro _ b₁ hb₁ _ _ _
    obtain rfl := mem_unique hb hb₁
    rw [CanBind, if_neg hub]
    refine ⟨fun chaddr b' hb' hbo => absurd hbo (hno chaddr b' hb'), ?_⟩
    -- No entry has a number yet.
    have hfr : 1 ∉ s₁.sg.pool .dynamic := by
      intro hme
      rcases hin.indexes.only .dynamic 1 hme with hz | ⟨ip, item, hlk, -⟩
      · cases hz
      · obtain ⟨chaddr, b', hb', hbo, -⟩ := hin.exists_client hlk
        exact hno chaddr b' hb' hbo
    refine List.find?_isSome.mpr ⟨1, List.mem_range.mpr (by decide), ?_⟩
    rw [decide_eq_true_eq]
    exact hfr
  exact ⟨s₁, s₂, ⟨⟨hdi, hs₁⟩, ⟨hack, hs₂⟩, trivial⟩, ⟨keepsGuard_portDiscover, hkp, trivial⟩,
    (hin.step hack hs₂).2 hkp, bound_of_portAck hca hma hb hdy hpt⟩

/-- A client asks for a server, is bound, and asks again: the entry for its address stays. -/
theorem follows_broken :
    ∃ s₁ s₂ s₃ : GuardSystem .little,
      Along (fun s a s' => a.Ordinary ∧ GuardStep .bits32 s a s') (.start .little)
        [(packetEvent portDiscover, s₁), (packetEvent portAck, s₂),
          (packetEvent portDiscover, s₃)] ∧
      Follows s₂.snp.bindings s₂.sg ∧ ¬Follows s₃.snp.bindings s₃.sg := by
  have hdiscover := ordinary_packetEvent (p := portDiscover) rfl
  obtain ⟨s₁, s₂, ⟨hstep₁, hstep₂, -⟩, -, hinv, b, hb, hdyn, hbound⟩ := exists_portBound
  obtain ⟨s₃, -, hstep₃, -⟩ := exists_portDiscover s₂
  refine ⟨s₁, s₂, s₃, ⟨hstep₁, hstep₂, ⟨hdiscover, hstep₃⟩, trivial⟩, hinv.follows,
    fun hfollows => ?_⟩
  have hkeeps := (hinv.step hdiscover hstep₃).1.mp hfollows
  have hrec := recorded_of_guardEnv (p := portDiscover) rfl (by decide)
  exact hkeeps portDiscover .discover rfl hrec rfl (by decide) b hb hdyn hbound

/-- The guard follows a client that asks for a server and is bound. -/
theorem follows_asked :
    ∃ s₁ s₂ : GuardSystem .little,
      Along (fun s a s' => a.Ordinary ∧ GuardStep .bits32 s a s') (.start .little)
        [(packetEvent portDiscover, s₁), (packetEvent portAck, s₂)] ∧
      Along (fun _ (_ : GuardEvent) s' => Follows s'.snp.bindings s'.sg) (.start .little)
        [(packetEvent portDiscover, s₁), (packetEvent portAck, s₂)] ∧
      (guardedPermits s₂.snp.bindings).Nonempty := by
  obtain ⟨s₁, s₂, hrun, hkeeps, -, b, hb, -, hbound⟩ := exists_portBound
  exact ⟨s₁, s₂, hrun, (follows_along hrun).mpr hkeeps, _, _, b, hb, hbound, rfl⟩

end Chanos.Guard

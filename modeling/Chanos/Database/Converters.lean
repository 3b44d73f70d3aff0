import Chanos.Lib.Checksum

/-!
# The byte-order converters of the tables

A table converts an entry to the order of the network before it is sent (`entry_hton`) and back
where it is received (`entry_ntoh`). A field that both convert gets through between any two nodes,
and any other field only between some of them (`exchange_apply_iff`).
-/

namespace Chanos.Database

open Lib Word

/-- The types of the fields. A name or an IPv6 address is a sequence of bytes. -/
inductive Kind
  | word
  | half
  | bitmap
  | bytes

open Kind

namespace Kind

abbrev Val : Kind → Type
  | word => UInt32
  | half => UInt16
  | bitmap => List UInt32
  | bytes => List UInt8

def zero : (k : Kind) → k.Val
  | word | half => 0
  | bitmap | bytes => []

/-- `htonl`, `htons` and `npd_bitarray_hton`, which are also the conversions back. -/
def hton (e : Endian) : (k : Kind) → k.Val → k.Val
  | word => htonl e
  | half => Half.htons e
  | bitmap => List.map (htonl e)
  | bytes => id

/-- What a node of order `e'` reads where one of order `e` has written `x`. -/
def moved (e e' : Endian) (k : Kind) (x : k.Val) : k.Val := if e = e' then x else k.hton .little x

/-- The same bytes in both orders. -/
def Symmetric {k : Kind} (x : k.Val) : Prop := k.hton .little x = x

end Kind

variable {F : Type} [DecidableEq F] {kinds : F → Kind}

abbrev Entry (kinds : F → Kind) : Type := (f : F) → (kinds f).Val

abbrev Converter (kinds : F → Kind) : Type := Endian → Entry kinds → Entry kinds

/-- A list of assignments to `fields`, none of them twice. -/
def convert (fields : List F) : Converter kinds := fun e entry f =>
  if f ∈ fields then (kinds f).hton e (entry f) else entry f

/-- What becomes of an entry that a node of order `e` sends to one of order `e'`. -/
def exchange (hton ntoh : Converter kinds) (e e' : Endian) (entry : Entry kinds) : Entry kinds :=
  ntoh e' fun f => (kinds f).moved e e' (hton e entry f)

inductive RouteField
  | DIP | sip | sifindex | nexthop | masklen | ifindex | tblIndex | rt_type | isStatic | flag
  deriving DecidableEq

abbrev RouteField.kind : RouteField → Kind
  | isStatic => .bytes
  | _ => .word

def npdRouteDbtblHandleNtoh : Converter RouteField.kind :=
  convert [.DIP, .nexthop, .masklen, .ifindex, .tblIndex, .rt_type, .flag]

def npdRouteDbtblHandleHton : Converter RouteField.kind :=
  convert [.DIP, .sip, .sifindex, .nexthop, .masklen, .ifindex, .tblIndex, .rt_type, .flag]

inductive MrouteField
  | dip | sip | svid | srcl3_g_index | srcl3_netif_index | srcl2_netif_index | dst_vid
  | dstl3_g_index | dstl3_netif_index | dst_l2_ports | tbl_index | l2mc_index | rt_type | flag
  | dipv6 | sipv6 | family | l2_real_ports
  deriving DecidableEq

abbrev MrouteField.kind : MrouteField → Kind
  | dst_l2_ports | l2_real_ports => .bitmap
  | dipv6 | sipv6 | family => .bytes
  | _ => .word

def npdMrouteDbtblHandleNtoh : Converter MrouteField.kind :=
  convert [.dip, .sip, .svid, .srcl3_g_index, .srcl3_netif_index, .srcl2_netif_index, .dst_vid,
    .dstl3_g_index, .dstl3_netif_index, .dst_l2_ports, .tbl_index, .rt_type, .flag]

def npdMrouteDbtblHandleHton : Converter MrouteField.kind := npdMrouteDbtblHandleNtoh

inductive TrunkField
  | trunk_id | name | g_index | mtu | linkstate | ports | master_port_index | switch_port_index
  | load_balance_mode | forward_mode | aggregator_mode | vlag_cascade_state
  deriving DecidableEq

abbrev TrunkField.kind : TrunkField → Kind
  | name => .bytes
  | ports => .bitmap
  | aggregator_mode => .half
  | _ => .word

def npdTrunkNtoh : Converter TrunkField.kind :=
  convert [.trunk_id, .g_index, .mtu, .linkstate, .master_port_index, .switch_port_index,
    .load_balance_mode, .forward_mode, .aggregator_mode, .ports]

def npdTrunkHton : Converter TrunkField.kind := npdTrunkNtoh

inductive SwitchPortField
  | switch_port_index | switch_port_name | global_port_ifindex | fdb_limit | allow_tag_vlans
  | allow_untag_vlans | pvid | inner_pvid | default_pri | default_inner_pri | link_state | stp_flag
  | vlan_infilter_mode | vlan_efilter_mode | fdb_learning_mode | vlan_access_mode
  | vlan_private_mode | subnet_vlan_flag | mac_vlan_flag | prefer_subnet | access_qinq
  | qinq_drop_miss | tpid | inner_tpid | state | type | port_isolate
  deriving DecidableEq

abbrev SwitchPortField.kind : SwitchPortField → Kind
  | switch_port_name => .bytes
  | allow_tag_vlans | allow_untag_vlans => .bitmap
  | tpid | inner_tpid => .half
  | _ => .word

/-- The isolation of ports is a feature of the build. -/
def switchPortHandleNtoh (have_port_isolate : Bool) : Converter SwitchPortField.kind :=
  convert ([.switch_port_index, .global_port_ifindex, .fdb_limit, .pvid, .inner_pvid, .default_pri,
    .default_inner_pri, .link_state, .stp_flag, .vlan_infilter_mode, .vlan_efilter_mode,
    .fdb_learning_mode, .vlan_access_mode, .vlan_private_mode, .subnet_vlan_flag, .mac_vlan_flag,
    .prefer_subnet, .access_qinq, .qinq_drop_miss, .tpid, .inner_tpid, .state, .allow_tag_vlans,
    .allow_untag_vlans] ++ if have_port_isolate then [.port_isolate] else [])

def switchPortHandleHton (have_port_isolate : Bool) : Converter SwitchPortField.kind :=
  switchPortHandleNtoh have_port_isolate

namespace Kind

variable (k : Kind) (x : k.Val)

theorem hton_big : k.hton .big x = x := by
  cases k with
  | word | half | bytes => rfl
  | bitmap => exact List.map_id x

theorem hton_hton (e : Endian) : k.hton e (k.hton e x) = x := by
  cases k with
  | word => exact htonl_htonl e x
  | half => exact Half.htons_htons e x
  | bitmap =>
    have hid : htonl e ∘ htonl e = id := funext (htonl_htonl e)
    rw [hton, List.map_map, hid, List.map_id]
  | bytes => rfl

end Kind

section

variable {hton ntoh fields : List F} {e e' : Endian} {entry : Entry kinds} {f : F}

theorem exchange_apply_iff : exchange (convert hton) (convert ntoh) e e' entry f = entry f ↔
    (if f ∈ hton then f ∈ ntoh ∨ e' = .big else if f ∈ ntoh then e = .big else e = e') ∨
      Symmetric (entry f) := by
  unfold exchange convert Kind.moved Kind.Symmetric
  cases e <;> cases e' <;> split_ifs <;> simp_all [hton_hton, hton_big]

theorem exchange_same_iff : exchange (convert fields) (convert fields) e e' entry = entry ↔
    e = e' ∨ ∀ f ∉ fields, Symmetric (entry f) := by
  simp only [funext_iff, exchange_apply_iff]
  by_cases he : e = e'
  · exact iff_of_true (fun f => .inl (by split_ifs <;> simp_all)) (.inl he)
  refine ⟨fun h => .inr fun f hf => ?_, fun h f => ?_⟩
  · simpa [hf, he] using h f
  · by_cases hf : f ∈ fields
    · simp [hf]
    · exact .inr (h.resolve_left he f hf)

end

/-- Between which nodes, and for which of its values, an entry of each table gets through. -/
theorem exchange_eq_iff (e e' : Endian) :
    (∀ r, exchange npdRouteDbtblHandleHton npdRouteDbtblHandleNtoh e e' r = r ↔
      e' = .big ∨ Symmetric (r .sip) ∧ Symmetric (r .sifindex)) ∧
    (∀ r, exchange npdMrouteDbtblHandleHton npdMrouteDbtblHandleNtoh e e' r = r ↔
      e = e' ∨ Symmetric (r .l2mc_index) ∧ Symmetric (r .l2_real_ports)) ∧
    (∀ r, exchange npdTrunkHton npdTrunkNtoh e e' r = r ↔
      e = e' ∨ Symmetric (r .vlag_cascade_state)) ∧
    ∀ isolate r, exchange (switchPortHandleHton isolate) (switchPortHandleNtoh isolate) e e' r = r ↔
      e = e' ∨ Symmetric (r .type) ∧
        (isolate = true ∨ Symmetric (r .port_isolate)) := by
  refine ⟨fun r => funext_iff.trans ?_, fun r => exchange_same_iff.trans (or_congr_right ?_),
    fun r => exchange_same_iff.trans (or_congr_right ?_),
    fun isolate r => exchange_same_iff.trans (or_congr_right ?_)⟩
  · rw [or_and_left]
    refine ⟨fun h => ⟨?_, ?_⟩, fun h f => exchange_apply_iff.mpr ?_⟩
    · simpa using exchange_apply_iff.mp (h .sip)
    · simpa using exchange_apply_iff.mp (h .sifindex)
    · cases f with
      | sip => simpa using h.1
      | sifindex => simpa using h.2
      | isStatic => exact .inr rfl
      | _ => exact .inl (by simp)
  · refine ⟨fun h => ⟨h .l2mc_index (by decide), h .l2_real_ports (by decide)⟩, fun h f hf => ?_⟩
    cases f with
    | l2mc_index => exact h.1
    | l2_real_ports => exact h.2
    | dipv6 | sipv6 | family => rfl
    | _ => simp at hf
  · refine ⟨fun h => h .vlag_cascade_state (by decide), fun h f hf => ?_⟩
    cases f with
    | vlag_cascade_state => exact h
    | name => rfl
    | _ => simp at hf
  · refine ⟨fun h => ⟨h .type (by cases isolate <;> decide), ?_⟩, fun h f hf => ?_⟩
    · cases isolate with
      | false => exact .inr (h .port_isolate (by decide))
      | true => exact .inl rfl
    · cases f with
      | type => exact h.1
      | port_isolate => exact h.2.resolve_left (by rintro rfl; simp at hf)
      | switch_port_name => rfl
      | _ => simp at hf

/-- A route for one source, 10.0.0.1, that a little-endian node sends and gets back. -/
theorem exchange_source_route :
    (exchange npdRouteDbtblHandleHton npdRouteDbtblHandleNtoh .little .little
      (Function.update (fun f => f.kind.zero) .sip (0x0A000001 : UInt32)) .sip : UInt32) =
        0x0100000A := by
  decide

end Chanos.Database

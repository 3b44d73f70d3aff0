import Chanos.Lib.BitField

/-!
# Interface indexes and port bitmaps

An interface index is the union `NPD_NETIF_INDEX_U`: its upper four bits are a type, and the other
bits are fields that depend on it. `netif_array_index_from_ifindex` and
`netif_array_index_to_ifindex` translate between an index and the number of its bit in the port
bitmaps. In none of the four builds do all interfaces have a bit of their own (`ownsBit_iff`).
-/

namespace Chanos.Netif

open Lib BitField Nat
variable {w r b : ℕ}

structure NetifConfig where
  max_chassis_count : ℕ
  max_chassis_slot_count : ℕ
  max_slot_subboard_count : ℕ
  max_ethport_per_board : ℕ
  max_subport_per_ethport : ℕ
  subboard_start_port : ℕ
  max_ethport_per_subboard : ℕ
  max_ethport_per_system : ℕ
  max_switchport_per_system : ℕ
  chassis_trunk_range_max : ℕ
  chassis_wifi_range_max : ℕ
  chassis_tunnel_range_max : ℕ
  wifi_bitmap_start_port : ℕ
  tunnel_bitmap_start_port : ℕ

def NetifConfig.trunkBitmapStartPort (k : NetifConfig) : ℕ := k.max_ethport_per_system

/-- The builds that `netif_index.h` tells apart: `HAVE_MEMORY_SHORT`, `HAVE_CHASSIS_SUPPORT`,
`HAVE_MULTI_CHASSIS_SUPPORT`, and none of them. -/
inductive Build
  | memoryShort
  | chassisSupport
  | multiChassisSupport
  | default
  deriving DecidableEq

open Build

def Build.config : Build → NetifConfig
  | .memoryShort => {
      max_chassis_count := 1
      max_chassis_slot_count := 1
      max_slot_subboard_count := 1
      max_ethport_per_board := 64
      max_subport_per_ethport := 1
      subboard_start_port := 52
      max_ethport_per_subboard := 4
      max_ethport_per_system := 64
      max_switchport_per_system := 72
      chassis_trunk_range_max := 8
      chassis_wifi_range_max := 0
      chassis_tunnel_range_max := 0
      wifi_bitmap_start_port := 64 + 8
      tunnel_bitmap_start_port := 64 + 8 + 0 }
  | .chassisSupport => {
      max_chassis_count := 1
      max_chassis_slot_count := 16
      max_slot_subboard_count := 5
      max_ethport_per_board := 64
      max_subport_per_ethport := 1
      subboard_start_port := 52
      max_ethport_per_subboard := 4
      max_ethport_per_system := 1024
      max_switchport_per_system := 2048
      chassis_trunk_range_max := 127
      chassis_wifi_range_max := 512
      chassis_tunnel_range_max := 512
      wifi_bitmap_start_port := 1024 + 127 + 1
      tunnel_bitmap_start_port := 1024 + 127 + 512 + 1 }
  | .multiChassisSupport => {
      max_chassis_count := 4
      max_chassis_slot_count := 16
      max_slot_subboard_count := 5
      max_ethport_per_board := 64
      max_subport_per_ethport := 1
      subboard_start_port := 52
      max_ethport_per_subboard := 4
      max_ethport_per_system := 4096
      max_switchport_per_system := 5120
      chassis_trunk_range_max := 127
      chassis_wifi_range_max := 512
      chassis_tunnel_range_max := 512
      wifi_bitmap_start_port := 4096 + 127 + 1
      tunnel_bitmap_start_port := 4096 + 127 + 512 + 1 }
  | .default => {
      max_chassis_count := 1
      max_chassis_slot_count := 2
      max_slot_subboard_count := 5
      max_ethport_per_board := 64
      max_subport_per_ethport := 4
      subboard_start_port := 64
      max_ethport_per_subboard := 4
      max_ethport_per_system := 512
      max_switchport_per_system := 1024
      chassis_trunk_range_max := 127
      chassis_wifi_range_max := 0
      chassis_tunnel_range_max := 512
      wifi_bitmap_start_port := 512 + 127 + 1
      tunnel_bitmap_start_port := 512 + 127 + 0 + 1 }

/-! ## Indexes -/

inductive NetifType
  | null
  | loopback
  | eth
  | vlan
  | trunk
  | tunnel
  | wireless
  deriving DecidableEq

open NetifType

def NetifType.code : NetifType → ℕ
  | .null => 0x0
  | .loopback => 0x1
  | .eth => 0x2
  | .vlan => 0x3
  | .trunk => 0x4
  | .tunnel => 0x7
  | .wireless => 0xE

def ifType : BitField := ⟨28, 4, by decide⟩

namespace EthIf

def chassis : BitField := ⟨26, 2, by decide⟩

def slot : BitField := ⟨22, 4, by decide⟩

def subSlot : BitField := ⟨20, 2, by decide⟩

def port : BitField := ⟨14, 6, by decide⟩

def reserved : BitField := ⟨0, 14, by decide⟩

end EthIf

open EthIf

def vlanid : BitField := ⟨16, 12, by decide⟩

def trunkid : BitField := ⟨16, 12, by decide⟩

def tunnelid : BitField := ⟨18, 10, by decide⟩

namespace WirelessIf

def wtpid : BitField := ⟨22, 6, by decide⟩

def radioLocalId : BitField := ⟨20, 2, by decide⟩

def bssLocalIndex : BitField := ⟨17, 3, by decide⟩

end WirelessIf

open WirelessIf

def cleared (t : NetifType) : UInt32 := ifType.set 0 t.code

def ethIfindex (chassis slot sub_slot port reserved : ℤ) : UInt32 :=
  EthIf.reserved.set (EthIf.port.set (EthIf.subSlot.set (EthIf.slot.set
    (EthIf.chassis.set (cleared .eth) chassis) slot) sub_slot) port) reserved

variable (netif_index : UInt32)

def npdNetifTypeGet : ℕ := ifType.get netif_index

def npdNetifVlanGetIndex (vid : ℕ) : UInt32 := vlanid.set (cleared .vlan) vid

def npdNetifTrunkGetIndex (tid : ℤ) : UInt32 := trunkid.set (cleared .trunk) tid

def npdNetifTunnelGetIndex (tunnel_id : ℤ) : UInt32 := tunnelid.set (cleared .tunnel) tunnel_id

def npdNetifGetFromWtpRadioBss (wtp_id radio_local_id bss_local_index : ℕ) : UInt32 :=
  bssLocalIndex.set (radioLocalId.set
    (wtpid.set (cleared .wireless) wtp_id) radio_local_id) bss_local_index

def npdNetifVlanGetVid : ℕ := vlanid.get netif_index

def npdNetifTrunkGetTid : ℕ := trunkid.get netif_index

def npdNetifTunnelGetTunnelid : ℕ := tunnelid.get netif_index

/-! ## Numbers of bits -/

section

variable (k : NetifConfig)

def ethPortArrayIndexFromIfindexIn (eth_g_index : UInt32) : ℤ :=
  if ifType.get eth_g_index ≠ eth.code then -1
  else
    let perBoard := k.max_ethport_per_board * k.max_subport_per_ethport
    let sub_slot := subSlot.get eth_g_index
    let board := chassis.get eth_g_index * k.max_chassis_slot_count * perBoard +
      slot.get eth_g_index * perBoard
    let start :=
      if sub_slot ≠ 0 then
        board + (k.subboard_start_port +
          (sub_slot - 1) * (k.max_ethport_per_subboard * k.max_subport_per_ethport))
      else board
    (start + (port.get eth_g_index * k.max_subport_per_ethport +
      reserved.get eth_g_index) : ℕ)

def ethPortArrayIndexToIfindexIn (eth_arr_index : ℤ) : UInt32 :=
  let perBoard : ℤ := k.max_ethport_per_board * k.max_subport_per_ethport
  let perSubboard : ℤ := k.max_ethport_per_subboard * k.max_subport_per_ethport
  let u := chassis.set (cleared .eth) (eth_arr_index / (k.max_chassis_slot_count * perBoard))
  let n := eth_arr_index - chassis.get u * (k.max_chassis_slot_count * perBoard)
  let u := slot.set u (n / perBoard)
  let n := n - slot.get u * perBoard
  if n / k.max_subport_per_ethport < k.subboard_start_port then
    let u := subSlot.set u 0
    reserved.set (port.set u (n / k.max_subport_per_ethport))
      (n % k.max_subport_per_ethport)
  else
    let u := subSlot.set u ((n - k.subboard_start_port) / perSubboard + 1)
    let n := n - ((subSlot.get u - 1) * perSubboard + k.subboard_start_port)
    reserved.set (port.set u (n / k.max_subport_per_ethport))
      (n % k.max_subport_per_ethport)

variable (netif_index : UInt32)

def trunkArrayIndexFromIfindexIn : ℤ :=
  (k.trunkBitmapStartPort + npdNetifTrunkGetTid netif_index : ℕ)

def trunkArrayIndexToIfindexIn (netif_array_index : ℤ) : UInt32 :=
  npdNetifTrunkGetIndex (netif_array_index - k.trunkBitmapStartPort)

def tunnelArrayIndexFromIfindexIn : ℤ :=
  (k.tunnel_bitmap_start_port + npdNetifTunnelGetTunnelid netif_index : ℕ)

def tunnelArrayIndexToIfindexIn (netif_array_index : ℤ) : UInt32 :=
  npdNetifTunnelGetIndex (netif_array_index - k.tunnel_bitmap_start_port)

def netifLocalRadioNum : ℕ := 4

def netifLocalBssNum : ℕ := 8

def npdNetifGetBssindex : ℤ :=
  if ifType.get netif_index ≠ wireless.code then -1
  else
    ((wtpid.get netif_index * netifLocalRadioNum +
      radioLocalId.get netif_index) * netifLocalBssNum +
      bssLocalIndex.get netif_index : ℕ)

def npdNetifBssindexToNetifIndex (stack : UInt32) (bss_index : ℤ) : UInt32 :=
  bssLocalIndex.set (radioLocalId.set (wtpid.set
    (ifType.set stack wireless.code)
    (bss_index / netifLocalBssNum / netifLocalRadioNum))
    (bss_index / netifLocalBssNum % netifLocalRadioNum)) (bss_index % netifLocalBssNum)

def wifiPortArrayIndexFromIfindexIn : ℤ :=
  if ifType.get netif_index ≠ wireless.code then -1
  else if npdNetifGetBssindex netif_index = -1 then -1
  else k.wifi_bitmap_start_port + npdNetifGetBssindex netif_index

def wifiPortArrayIndexToIfindexIn (stack : UInt32) (wifi_arr_index : ℤ) : UInt32 :=
  npdNetifBssindexToNetifIndex stack (wifi_arr_index - k.wifi_bitmap_start_port)

def netifArrayIndexFromIfindex : ℤ :=
  if npdNetifTypeGet netif_index = eth.code then
    ethPortArrayIndexFromIfindexIn k netif_index
  else if npdNetifTypeGet netif_index = trunk.code then
    trunkArrayIndexFromIfindexIn k netif_index
  else if npdNetifTypeGet netif_index = tunnel.code then
    tunnelArrayIndexFromIfindexIn k netif_index
  else if npdNetifTypeGet netif_index = wireless.code then
    wifiPortArrayIndexFromIfindexIn k netif_index
  else -1

def netifArrayIndexToIfindex (stack : UInt32) (array_index : ℕ) : UInt32 :=
  if array_index < k.max_ethport_per_system then ethPortArrayIndexToIfindexIn k array_index
  else if array_index < k.wifi_bitmap_start_port then trunkArrayIndexToIfindexIn k array_index
  else if array_index < k.tunnel_bitmap_start_port then
    wifiPortArrayIndexToIfindexIn k stack array_index
  else if array_index < k.max_switchport_per_system then tunnelArrayIndexToIfindexIn k array_index
  else 0xFFFFFFFF

end

/-! ## Interfaces -/

def bssIndex (wtp_id radio_local_id bss_local_index : ℕ) : ℕ :=
  (wtp_id * netifLocalRadioNum + radio_local_id) * netifLocalBssNum + bss_local_index

inductive Interface
  | eth (chassis slot sub_slot port sub_port : ℕ)
  | trunk (tid : ℕ)
  | vlan (vid : ℕ)
  | tunnel (tunnel_id : ℕ)
  | wireless (wtp_id radio_local_id bss_local_index : ℕ)
  deriving DecidableEq

namespace Interface

def ifindex : Interface → UInt32
  | eth chassis slot sub_slot port sub_port => ethIfindex chassis slot sub_slot port sub_port
  | trunk tid => npdNetifTrunkGetIndex tid
  | vlan vid => npdNetifVlanGetIndex vid
  | tunnel tunnel_id => npdNetifTunnelGetIndex tunnel_id
  | wireless wtp_id radio_local_id bss_local_index =>
    npdNetifGetFromWtpRadioBss wtp_id radio_local_id bss_local_index

def IsPort (k : NetifConfig) : Interface → Prop
  | eth chassis slot sub_slot port sub_port =>
    chassis < k.max_chassis_count ∧ slot < k.max_chassis_slot_count ∧
      (sub_slot = 0 ∧ port < k.subboard_start_port ∨
        1 ≤ sub_slot ∧ sub_slot ≤ 3 ∧ port < k.max_ethport_per_subboard) ∧
      sub_port < k.max_subport_per_ethport
  | trunk tid => tid ≤ k.chassis_trunk_range_max
  | vlan _ => False
  | tunnel tunnel_id => tunnel_id < k.chassis_tunnel_range_max
  | wireless wtp_id radio_local_id bss_local_index =>
    radio_local_id < netifLocalRadioNum ∧ bss_local_index < netifLocalBssNum ∧
      bssIndex wtp_id radio_local_id bss_local_index < k.chassis_wifi_range_max

def number (k : NetifConfig) : Interface → ℕ
  | eth chassis slot sub_slot port sub_port =>
    chassis * k.max_chassis_slot_count * (k.max_ethport_per_board * k.max_subport_per_ethport) +
      slot * (k.max_ethport_per_board * k.max_subport_per_ethport) +
      (if sub_slot ≠ 0 then
        k.subboard_start_port +
          (sub_slot - 1) * (k.max_ethport_per_subboard * k.max_subport_per_ethport)
      else 0) +
      (port * k.max_subport_per_ethport + sub_port)
  | trunk tid => k.trunkBitmapStartPort + tid
  | vlan _ => 0
  | tunnel tunnel_id => k.tunnel_bitmap_start_port + tunnel_id
  | wireless wtp_id radio_local_id bss_local_index =>
    k.wifi_bitmap_start_port + bssIndex wtp_id radio_local_id bss_local_index

end Interface

/-! ## Reading the fields back -/

@[simp]
theorem ifType_cleared (t : NetifType) : ifType.get (cleared t) = t.code := by
  cases t <;> rfl

theorem ifType_ethIfindex (chassis slot sub_slot port reserved : ℤ) :
    ifType.get (ethIfindex chassis slot sub_slot port reserved) = eth.code := by
  simp (disch := decide) only [ethIfindex, get_set_of_apart, ifType_cleared]

theorem get_ethIfindex {chassis slot sub_slot port reserved : ℕ} (hc : chassis < 4)
    (hsl : slot < 16) (hsu : sub_slot < 4) (hp : port < 64) (hr : reserved < 16384) :
    let x := ethIfindex chassis slot sub_slot port reserved
    EthIf.chassis.get x = chassis ∧ EthIf.slot.get x = slot ∧ EthIf.subSlot.get x = sub_slot ∧
      EthIf.port.get x = port ∧ EthIf.reserved.get x = reserved := by
  simp (disch := first | decide | assumption) only [ethIfindex, get_set_of_apart]
  exact ⟨get_set_of_lt _ _ hc, get_set_of_lt _ _ hsl,
    get_set_of_lt _ _ hsu, get_set_of_lt _ _ hp,
    get_set_of_lt _ _ hr⟩

theorem ifType_trunk (tid : ℤ) : ifType.get (npdNetifTrunkGetIndex tid) = trunk.code :=
  (get_set_of_apart (by decide) _ _).trans (ifType_cleared _)

theorem ifType_tunnel (tunnel_id : ℤ) :
    ifType.get (npdNetifTunnelGetIndex tunnel_id) = tunnel.code :=
  (get_set_of_apart (by decide) _ _).trans (ifType_cleared _)

theorem ifType_vlan (vid : ℕ) : ifType.get (npdNetifVlanGetIndex vid) = vlan.code :=
  (get_set_of_apart (by decide) _ _).trans (ifType_cleared _)

theorem ifType_wireless (w r b : ℕ) :
    ifType.get (npdNetifGetFromWtpRadioBss w r b) = wireless.code := by
  simp (disch := decide) only [npdNetifGetFromWtpRadioBss, get_set_of_apart, ifType_cleared]

section

variable (hr : r < netifLocalRadioNum) (hb : b < netifLocalBssNum)
include hr hb

theorem getBssindex_wireless (hw : w < 64) :
    npdNetifGetBssindex (npdNetifGetFromWtpRadioBss w r b) = bssIndex w r b := by
  have ht := ifType_wireless w r b
  have hwt : wtpid.get (npdNetifGetFromWtpRadioBss w r b) = w := by
    simp (disch := decide) only [npdNetifGetFromWtpRadioBss, get_set_of_apart]
    exact get_set_of_lt _ _ hw
  have hra : radioLocalId.get (npdNetifGetFromWtpRadioBss w r b) = r := by
    simp (disch := decide) only [npdNetifGetFromWtpRadioBss, get_set_of_apart]
    exact get_set_of_lt _ _ hr
  have hbs : bssLocalIndex.get (npdNetifGetFromWtpRadioBss w r b) = b :=
    get_set_of_lt _ _ hb
  rw [npdNetifGetBssindex, if_neg (not_not.mpr ht), hwt, hra, hbs, bssIndex]

theorem bssIndex_split :
    (bssIndex w r b : ℤ) / netifLocalBssNum / netifLocalRadioNum = w ∧
      (bssIndex w r b : ℤ) / netifLocalBssNum % netifLocalRadioNum = r ∧
      (bssIndex w r b : ℤ) % netifLocalBssNum = b := by
  unfold bssIndex
  unfold netifLocalRadioNum netifLocalBssNum at *
  omega

theorem toNat_bssindexToNetifIndex (stack : UInt32) (hw : w < 64) :
    (npdNetifBssindexToNetifIndex stack (bssIndex w r b)).toNat =
      14 * 2 ^ 28 + w * 2 ^ 22 + r * 2 ^ 20 + b * 2 ^ 17 + stack.toNat % 2 ^ 17 := by
  obtain ⟨hwt, hra, hbs⟩ := bssIndex_split (w := w) hr hb
  unfold netifLocalRadioNum at hr
  unfold netifLocalBssNum at hb
  have hsa := stack.toNat_lt
  rw [npdNetifBssindexToNetifIndex, hwt, hra, hbs]
  -- The fields are assigned from the top of the word to its bit 17, each above those still to come.
  generalize h₁ : ifType.set stack wireless.code = u₁
  have e₁ : u₁.toNat = 14 * 2 ^ 28 + stack.toNat % 2 ^ 28 := by
    rw [← h₁, toNat_set]
    simp only [ifType, code]
    omega
  generalize h₂ : wtpid.set u₁ w = u₂
  have e₂ : u₂.toNat = 14 * 2 ^ 28 + w * 2 ^ 22 + stack.toNat % 2 ^ 22 := by
    rw [← h₂, toNat_set, e₁]
    simp only [wtpid]
    omega
  generalize h₃ : radioLocalId.set u₂ r = u₃
  have e₃ : u₃.toNat = 14 * 2 ^ 28 + w * 2 ^ 22 + r * 2 ^ 20 + stack.toNat % 2 ^ 20 := by
    rw [← h₃, toNat_set, e₂]
    simp only [radioLocalId]
    omega
  rw [toNat_set, e₃]
  simp only [bssLocalIndex]
  omega

theorem bssindexToNetifIndex_zero :
    npdNetifBssindexToNetifIndex 0 (bssIndex w r b) = npdNetifGetFromWtpRadioBss w r b := by
  obtain ⟨hwt, hra, hbs⟩ := bssIndex_split (w := w) hr hb
  rw [npdNetifBssindexToNetifIndex, hwt, hra, hbs]
  rfl

theorem bssindexToNetifIndex_iff (stack : UInt32) (hw : w < 64) :
    npdNetifBssindexToNetifIndex stack (bssIndex w r b) = npdNetifGetFromWtpRadioBss w r b ↔
      stack.toNat % 2 ^ 17 = 0 := by
  have hsa := toNat_bssindexToNetifIndex hr hb stack hw
  have hz := toNat_bssindexToNetifIndex hr hb 0 hw
  rw [bssindexToNetifIndex_zero hr hb, UInt32.toNat_zero, zero_mod, add_zero] at hz
  rw [← UInt32.toNat_inj, hsa, hz]
  exact add_eq_left

end

theorem ethPortArrayIndexToIfindexIn_eq {k : NetifConfig} {n : ℤ} {c s ss p q : ℕ} (hc4 : c < 4)
    (hs16 : s < 16) (hss4 : ss < 4)
    (hc : n / (k.max_chassis_slot_count * (k.max_ethport_per_board * k.max_subport_per_ethport)) = c)
    (hs : (n - c * (k.max_chassis_slot_count *
      (k.max_ethport_per_board * k.max_subport_per_ethport))) /
        (k.max_ethport_per_board * k.max_subport_per_ethport) = s)
    {m : ℤ} (hm : m = n - c * (k.max_chassis_slot_count *
      (k.max_ethport_per_board * k.max_subport_per_ethport)) -
        s * (k.max_ethport_per_board * k.max_subport_per_ethport))
    (hb : ss = 0 → m / k.max_subport_per_ethport < k.subboard_start_port ∧
      m / k.max_subport_per_ethport = p ∧ m % k.max_subport_per_ethport = q)
    (hsu : ss ≠ 0 → ¬m / k.max_subport_per_ethport < k.subboard_start_port ∧
      (m - k.subboard_start_port) / (k.max_ethport_per_subboard * k.max_subport_per_ethport) + 1 =
        ss ∧
      (m - ((ss - 1) * (k.max_ethport_per_subboard * k.max_subport_per_ethport) +
        k.subboard_start_port)) / k.max_subport_per_ethport = p ∧
      (m - ((ss - 1) * (k.max_ethport_per_subboard * k.max_subport_per_ethport) +
        k.subboard_start_port)) % k.max_subport_per_ethport = q) :
    ethPortArrayIndexToIfindexIn k n = ethIfindex c s ss p q := by
  have hcha : ∀ u, EthIf.chassis.get (EthIf.chassis.set u c) = c := fun u =>
    get_set_of_lt _ _ hc4
  have hsl : ∀ u, EthIf.slot.get (EthIf.slot.set u s) = s := fun u =>
    get_set_of_lt _ _ hs16
  have hsubSlot : ∀ u, EthIf.subSlot.get (EthIf.subSlot.set u ss) = ss := fun u =>
    get_set_of_lt _ _ hss4
  simp only [ethPortArrayIndexToIfindexIn, hc, hcha, hs, hsl, ← hm]
  rcases Nat.eq_zero_or_pos ss with h0 | hpo
  · -- A port of the board itself.
    obtain ⟨hlt, hp, hq⟩ := hb h0
    rw [if_pos hlt, hp, hq, h0, ethIfindex]
    rfl
  · -- A port of a sub-board.
    obtain ⟨hge, hss, hp, hq⟩ := hsu (pos_iff_ne_zero.mp hpo)
    rw [if_neg hge, hss, hsubSlot, hp, hq, ethIfindex]

/-! ## Numbers of valid interfaces -/

namespace Interface

variable {b : Build} {i : Interface} {c s ss p q : ℕ}

/-- The bitmap has the ports first, and the tunnels after the wireless interfaces. -/
theorem config_layout (b : Build) :
    b.config.max_ethport_per_system ≤ b.config.wifi_bitmap_start_port ∧
      b.config.wifi_bitmap_start_port + b.config.chassis_wifi_range_max ≤
        b.config.tunnel_bitmap_start_port ∧
      b.config.tunnel_bitmap_start_port ≤ b.config.max_switchport_per_system := by
  cases b <;> decide

theorem eth_bounds {chassis slot sub_slot port sub_port : ℕ}
    (h : (eth chassis slot sub_slot port sub_port).IsPort b.config) :
    chassis < 4 ∧ slot < 16 ∧ sub_slot < 4 ∧ port < 64 ∧ sub_port < 16384 := by
  obtain ⟨hc, hsl, hp, hsu⟩ := h
  cases b <;> simp only [config] at hc hsl hp hsu <;> omega

theorem wireless_bound {w r s : ℕ} (h : (wireless w r s).IsPort b.config) : w < 64 := by
  obtain ⟨hr, hs, hlt⟩ := h
  unfold bssIndex netifLocalRadioNum netifLocalBssNum at hlt
  cases b <;> simp only [config] at hlt <;> omega

theorem fromIfindex_eq (h : i.IsPort b.config) :
    netifArrayIndexFromIfindex b.config i.ifindex = i.number b.config := by
  cases i with
  | eth c s ss p q =>
    obtain ⟨hc, hs, hss, hp, hq⟩ := eth_bounds h
    have hty := ifType_ethIfindex c s ss p q
    obtain ⟨gc, gs, gss, gp, gq⟩ := get_ethIfindex hc hs hss hp hq
    rw [netifArrayIndexFromIfindex, ifindex, npdNetifTypeGet, hty, if_pos rfl,
      ethPortArrayIndexFromIfindexIn, if_neg (not_not.mpr hty)]
    simp only [gc, gs, gss, gp, gq, number]
    split <;> rfl
  | trunk tid =>
    have hty := ifType_trunk tid
    have ht : tid < 2 ^ trunkid.width := by
      refine lt_of_le_of_lt h ?_
      cases b <;> decide
    have hget : npdNetifTrunkGetTid (npdNetifTrunkGetIndex tid) = tid :=
      get_set_of_lt _ _ ht
    rw [netifArrayIndexFromIfindex, ifindex, npdNetifTypeGet, hty, if_neg (by decide),
      if_pos rfl, trunkArrayIndexFromIfindexIn, hget, number]
  | vlan vid => exact absurd h id
  | tunnel id =>
    have hty := ifType_tunnel id
    have hid : id < 2 ^ tunnelid.width := by
      refine lt_of_lt_of_le h ?_
      cases b <;> decide
    have hget : npdNetifTunnelGetTunnelid (npdNetifTunnelGetIndex id) = id :=
      get_set_of_lt _ _ hid
    rw [netifArrayIndexFromIfindex, ifindex, npdNetifTypeGet, hty, if_neg (by decide),
      if_neg (by decide), if_pos rfl, tunnelArrayIndexFromIfindexIn, hget, number]
  | wireless w r s =>
    have hty := ifType_wireless w r s
    have hb := getBssindex_wireless h.1 h.2.1 (wireless_bound h)
    rw [netifArrayIndexFromIfindex, ifindex, npdNetifTypeGet, hty, if_neg (by decide),
      if_neg (by decide), if_neg (by decide), if_pos rfl, wifiPortArrayIndexFromIfindexIn,
      if_neg (not_not.mpr hty), hb, if_neg (by omega), number]
    rfl

theorem number_eth_lt (h : (eth c s ss p q).IsPort b.config) :
    (eth c s ss p q).number b.config < b.config.max_ethport_per_system := by
  obtain ⟨hc, hsl, hp, hsu⟩ := h
  unfold number
  cases b <;> simp only [config] at hc hsl hp hsu ⊢ <;> split <;> omega

section

variable (stack : UInt32)

theorem toIfindex_eth (h : (eth c s ss p q).IsPort b.config) (hb : b = .default → ss = 0) :
    netifArrayIndexToIfindex b.config stack ((eth c s ss p q).number b.config) =
      (eth c s ss p q).ifindex := by
  obtain ⟨hc, hs, hss, -, -⟩ := eth_bounds h
  rw [netifArrayIndexToIfindex, if_pos (number_eth_lt h), ifindex]
  obtain ⟨hcha, hsl, hp, hsu⟩ := h
  refine ethPortArrayIndexToIfindexIn_eq hc hs hss ?_ ?_ rfl (fun h0 => ?_) (fun h0 => ?_) <;>
  · unfold number
    cases b <;> simp only [config, reduceCtorEq, false_implies, true_implies] at * <;>
      split <;> omega

theorem toIfindex_trunk {tid : ℕ} (h : (trunk tid).IsPort b.config)
    (hb : b = .memoryShort → tid < 8) :
    netifArrayIndexToIfindex b.config stack ((trunk tid).number b.config) =
      (trunk tid).ifindex := by
  have ht : tid ≤ b.config.chassis_trunk_range_max := h
  have hge : ¬(trunk tid).number b.config < b.config.max_ethport_per_system :=
    not_lt.mpr (le_add_right _ _)
  have hlt : (trunk tid).number b.config < b.config.wifi_bitmap_start_port := by
    unfold number NetifConfig.trunkBitmapStartPort
    cases b <;> simp only [config, reduceCtorEq, false_implies, true_implies] at * <;> omega
  rw [netifArrayIndexToIfindex, if_neg hge, if_pos hlt, trunkArrayIndexToIfindexIn, ifindex, number]
  congr 1
  omega

theorem toIfindex_tunnel {id : ℕ}
    (hlt : (tunnel id).number b.config < b.config.max_switchport_per_system) :
    netifArrayIndexToIfindex b.config stack ((tunnel id).number b.config) =
      (tunnel id).ifindex := by
  have hst := config_layout b
  have hge : b.config.tunnel_bitmap_start_port ≤ (tunnel id).number b.config := le_add_right _ _
  rw [netifArrayIndexToIfindex, if_neg (by omega), if_neg (by omega), if_neg (by omega),
    if_pos hlt, tunnelArrayIndexToIfindexIn, ifindex, number]
  congr 1
  omega

theorem toIfindex_wireless {w r s : ℕ} (h : (wireless w r s).IsPort b.config) :
    netifArrayIndexToIfindex b.config stack ((wireless w r s).number b.config) =
      (wireless w r s).ifindex ↔ stack.toNat % 2 ^ 17 = 0 := by
  have hw := wireless_bound h
  obtain ⟨hr, hs, hb⟩ := h
  have hst := config_layout b
  have hn : (wireless w r s).number b.config =
      b.config.wifi_bitmap_start_port + bssIndex w r s := rfl
  have hsu : (((wireless w r s).number b.config : ℕ) : ℤ) - b.config.wifi_bitmap_start_port =
      bssIndex w r s := by
    rw [hn]
    omega
  rw [netifArrayIndexToIfindex, if_neg (by omega), if_neg (by omega), if_pos (by omega),
    wifiPortArrayIndexToIfindexIn, hsu, ifindex, bssindexToNetifIndex_iff hr hs stack hw]

end

/-! ## Bits of their own -/

def OwnsBit (k : NetifConfig) (stack : UInt32) (i : Interface) : Prop :=
  ∃ n : ℕ, netifArrayIndexFromIfindex k i.ifindex = n ∧ n < k.max_switchport_per_system ∧
    netifArrayIndexToIfindex k stack n = i.ifindex ∧
    ∀ j : Interface, j.IsPort k → j ≠ i → netifArrayIndexFromIfindex k j.ifindex ≠ n

/-- The interfaces that have a bit of their own. -/
def Separate (b : Build) (stack : UInt32) : Interface → Prop
  | eth _ _ sub_slot port _ => b = .default → sub_slot = 0 ∧ (port < 16 ∨ 28 ≤ port)
  | trunk tid => b = .memoryShort → tid < 8
  | vlan _ => False
  | tunnel tunnel_id => tunnel_id < 384
  | wireless _ _ _ => stack.toNat % 2 ^ 17 = 0

theorem ownsBit_iff_number (stack : UInt32) (hi : i.IsPort b.config) :
    OwnsBit b.config stack i ↔ i.number b.config < b.config.max_switchport_per_system ∧
      netifArrayIndexToIfindex b.config stack (i.number b.config) = i.ifindex ∧
      ∀ j : Interface, j.IsPort b.config → j ≠ i → j.number b.config ≠ i.number b.config := by
  constructor
  · rintro ⟨n, hn, hlt, ht, hne⟩
    have hnu : i.number b.config = n := by
      have := (fromIfindex_eq hi).symm.trans hn
      exact_mod_cast this
    rw [hnu]
    refine ⟨hlt, ht, fun j hj hji heq => hne j hj hji ?_⟩
    rw [fromIfindex_eq hj, heq]
  · rintro ⟨hlt, ht, hne⟩
    refine ⟨_, fromIfindex_eq hi, hlt, ht, fun j hj hji heq => hne j hj hji ?_⟩
    rw [fromIfindex_eq hj] at heq
    exact_mod_cast heq

theorem number_eth_ne {c s ss p q c' s' ss' p' q' : ℕ} (stack : UInt32)
    (h : (eth c s ss p q).IsPort b.config) (h' : (eth c' s' ss' p' q').IsPort b.config)
    (hse : (eth c s ss p q).Separate b stack)
    (heq : (eth c' s' ss' p' q').number b.config = (eth c s ss p q).number b.config) :
    eth c' s' ss' p' q' = eth c s ss p q := by
  obtain ⟨hc, hsl, hp, hsu⟩ := h
  obtain ⟨hc', hsl', hp', hsu'⟩ := h'
  unfold Separate at hse
  unfold number at heq
  rw [eth.injEq]
  cases b <;> simp only [config, reduceCtorEq, false_implies, true_implies] at * <;>
    split at heq <;> split at heq <;> omega

def rank : Interface → ℕ
  | eth _ _ _ _ _ => 0
  | trunk _ => 1
  | wireless _ _ _ => 2
  | tunnel _ => 3
  | vlan _ => 4

theorem number_lt_wifi {i : Interface} (hi : i.IsPort b.config) (hr : i.rank < 2)
    (hb : 0 < b.config.chassis_wifi_range_max ∨ 0 < b.config.chassis_tunnel_range_max) :
    i.number b.config < b.config.wifi_bitmap_start_port := by
  cases i with
  | eth => exact lt_of_lt_of_le (number_eth_lt hi) (config_layout b).1
  | trunk tid =>
    have hst : b.config.max_ethport_per_system + b.config.chassis_trunk_range_max <
        b.config.wifi_bitmap_start_port ∨
        b.config.chassis_wifi_range_max = 0 ∧ b.config.chassis_tunnel_range_max = 0 := by
      cases b <;> decide
    have ht : tid ≤ b.config.chassis_trunk_range_max := hi
    have hn : (trunk tid).number b.config = b.config.max_ethport_per_system + tid := rfl
    omega
  | _ => simp [rank] at hr

theorem number_lt_of_rank {i j : Interface} (hi : i.IsPort b.config) (hj : j.IsPort b.config)
    (hlt : i.rank < j.rank) : i.number b.config < j.number b.config := by
  cases j with
  | eth => exact absurd hlt (not_lt_zero _)
  | vlan => exact absurd hj id
  | trunk tid =>
    cases i with
    | eth => exact lt_of_lt_of_le (number_eth_lt hi) (le_add_right _ _)
    | _ => simp [rank] at hlt
  | wireless w r s =>
    have hwi := number_lt_wifi hi hlt (.inl (zero_lt_of_lt hj.2.2))
    exact lt_of_lt_of_le hwi (le_add_right _ _)
  | tunnel tid =>
    refine lt_of_lt_of_le ?_ ((config_layout b).2.1.trans (le_add_right _ _))
    cases i with
    | wireless w r s => exact Nat.add_lt_add_left hi.2.2 _
    | vlan => exact absurd hi id
    | tunnel => exact absurd hlt (lt_irrefl _)
    | eth | trunk =>
      have hwi := number_lt_wifi hi (by simp [rank]) (.inr (zero_lt_of_lt hj))
      exact lt_of_lt_of_le hwi (le_add_right _ _)

theorem eq_of_number_eq {i j : Interface} (stack : UInt32) (hi : i.IsPort b.config)
    (hj : j.IsPort b.config) (hse : i.Separate b stack)
    (heq : j.number b.config = i.number b.config) : j = i := by
  have hra : j.rank = i.rank := by
    rcases lt_trichotomy j.rank i.rank with h | h | h
    · exact absurd heq (number_lt_of_rank hj hi h).ne
    · exact h
    · exact absurd heq (number_lt_of_rank hi hj h).ne'
  cases i with
  | eth =>
    cases j with
    | eth => exact number_eth_ne stack hi hj hse heq
    | _ => simp [rank] at hra
  | trunk =>
    cases j with
    | trunk => exact congrArg trunk (add_left_cancel heq)
    | _ => simp [rank] at hra
  | vlan => exact absurd hi id
  | tunnel =>
    cases j with
    | tunnel => exact congrArg tunnel (add_left_cancel heq)
    | _ => simp [rank] at hra
  | wireless w r s =>
    cases j with
    | wireless w' r' s' =>
      have hb : bssIndex w' r' s' = bssIndex w r s := add_left_cancel heq
      obtain ⟨hr, hs, -⟩ := hi
      obtain ⟨hr', hs', -⟩ := hj
      unfold bssIndex at hb
      unfold netifLocalRadioNum netifLocalBssNum at *
      rw [wireless.injEq]
      omega
    | _ => simp [rank] at hra

section

variable {stack : UInt32} (hi : i.IsPort b.config) (hse : i.Separate b stack)
include hi hse

theorem number_lt : i.number b.config < b.config.max_switchport_per_system := by
  cases i with
  | eth =>
    refine lt_of_lt_of_le (number_eth_lt hi) ?_
    cases b <;> decide
  | trunk tid =>
    have ht : tid ≤ b.config.chassis_trunk_range_max := hi
    unfold Separate at hse
    unfold number NetifConfig.trunkBitmapStartPort
    cases b <;> simp only [config, reduceCtorEq, false_implies, true_implies] at * <;> omega
  | vlan => exact absurd hi id
  | tunnel id =>
    have hid : id < b.config.chassis_tunnel_range_max := hi
    unfold Separate at hse
    unfold number
    cases b <;> simp only [config] at * <;> omega
  | wireless w r s =>
    have hst := config_layout b
    exact lt_of_lt_of_le (Nat.add_lt_add_left hi.2.2 _) (hst.2.1.trans hst.2.2)

theorem toIfindex_eq :
    netifArrayIndexToIfindex b.config stack (i.number b.config) = i.ifindex := by
  cases i with
  | eth => exact toIfindex_eth stack hi fun hb => (hse hb).1
  | trunk => exact toIfindex_trunk stack hi hse
  | vlan => exact absurd hi id
  | tunnel => exact toIfindex_tunnel stack (number_lt hi hse)
  | wireless => exact (toIfindex_wireless stack hi).mpr hse

end

theorem number_default_shared (hss : 1 ≤ ss) :
    (eth c s 0 (16 + 4 * (ss - 1) + p) q).number default.config =
      (eth c s ss p q).number default.config := by
  unfold number
  simp only [config]
  rw [if_neg (by omega), if_pos (by omega)]
  omega

/-- An interface of a build has a bit of its own exactly when it is separate. -/
theorem ownsBit_iff (b : Build) (stack : UInt32) {i : Interface} (hi : i.IsPort b.config) :
    OwnsBit b.config stack i ↔ i.Separate b stack := by
  rw [ownsBit_iff_number stack hi]
  constructor
  · rintro ⟨hlt, hto, hne⟩
    cases i with
    | eth c s ss p q =>
      rintro rfl
      obtain ⟨hc, hs, hport, hq⟩ := hi
      simp only [config] at hc hs hport hq
      -- A port of a sub-board shares its bit, and a port that shares its bit has one on a sub-board.
      have hss : ss = 0 := by
        by_contra h0
        refine hne (eth c s 0 (16 + 4 * (ss - 1) + p) q) ?_ ?_ (number_default_shared (by omega))
        · exact ⟨hc, hs, .inl ⟨rfl, show _ < 64 by omega⟩, hq⟩
        · intro heq
          rw [eth.injEq] at heq
          omega
      refine ⟨hss, ?_⟩
      by_contra hp
      subst hss
      obtain ⟨ss', p', hss', hp', hval⟩ : ∃ ss' p', (1 ≤ ss' ∧ ss' ≤ 3) ∧ p' < 4 ∧
          16 + 4 * (ss' - 1) + p' = p :=
        ⟨(p - 16) / 4 + 1, (p - 16) % 4, by omega, by omega, by omega⟩
      refine hne (eth c s ss' p' q) ?_ ?_ ?_
      · exact ⟨hc, hs, .inr ⟨hss'.1, hss'.2, hp'⟩, hq⟩
      · intro heq
        rw [eth.injEq] at heq
        omega
      · rw [← number_default_shared hss'.1, hval]
    | trunk tid =>
      rintro rfl
      have hlt : 64 + tid < 72 := hlt
      omega
    | vlan => exact absurd hi id
    | tunnel id =>
      have hid : id < b.config.chassis_tunnel_range_max := hi
      have hlt : b.config.tunnel_bitmap_start_port + id < b.config.max_switchport_per_system := hlt
      unfold Separate
      cases b <;> simp only [config] at hid hlt <;> omega
    | wireless w r s => exact (toIfindex_wireless stack hi).mp hto
  · intro hsep
    exact ⟨number_lt hi hsep, toIfindex_eq hi hsep,
      fun j hj hji heq => hji (eq_of_number_eq stack hi hj hsep heq)⟩

/-- The first port of a chassis system has a bit of its own. -/
theorem ownsBit_first :
    (eth 0 0 0 0 0).IsPort chassisSupport.config ∧
      OwnsBit chassisSupport.config 0 (eth 0 0 0 0 0) :=
  have hport : (eth 0 0 0 0 0).IsPort chassisSupport.config :=
    ⟨by decide, by decide, .inl (by decide), by decide⟩
  ⟨hport, (ownsBit_iff .chassisSupport 0 hport).mpr nofun⟩

/-- Interfaces without a bit of their own in each build: the last trunk of the smallest one, a
tunnel of the two chassis builds, a port of a sub-board of the default build, and a wireless
interface whose index is put together on a stack that is not zero. -/
theorem not_ownsBit :
    ((trunk 8).IsPort memoryShort.config ∧
      ¬OwnsBit memoryShort.config 0 (trunk 8)) ∧
    ((tunnel 384).IsPort chassisSupport.config ∧
      ¬OwnsBit chassisSupport.config 0 (tunnel 384)) ∧
    ((tunnel 384).IsPort multiChassisSupport.config ∧
      ¬OwnsBit multiChassisSupport.config 0 (tunnel 384)) ∧
    ((eth 0 0 1 0 0).IsPort default.config ∧
      ¬OwnsBit default.config 0 (eth 0 0 1 0 0)) ∧
    (wireless 0 0 0).IsPort chassisSupport.config ∧
      ¬OwnsBit chassisSupport.config 1 (wireless 0 0 0) := by
  have htrunk : (trunk 8).IsPort memoryShort.config := show 8 ≤ 8 by decide
  have htunnel : (tunnel 384).IsPort chassisSupport.config := show 384 < 512 by decide
  have htunnel' : (tunnel 384).IsPort multiChassisSupport.config := show 384 < 512 by decide
  have heth : (eth 0 0 1 0 0).IsPort default.config :=
    ⟨by decide, by decide, .inr (by decide), by decide⟩
  have hboard : (eth 0 0 0 16 0).IsPort default.config :=
    ⟨by decide, by decide, .inl (by decide), by decide⟩
  have hwireless : (wireless 0 0 0).IsPort chassisSupport.config :=
    ⟨by decide, by decide, by decide⟩
  refine ⟨⟨htrunk, fun h => ?_⟩, ⟨htunnel, fun h => ?_⟩, ⟨htunnel', fun h => ?_⟩,
    ⟨heth, fun h => ?_⟩, hwireless, fun h => ?_⟩
  · exact absurd ((ownsBit_iff_number 0 htrunk).mp h).1 (by decide)
  · exact absurd ((ownsBit_iff_number 0 htunnel).mp h).1 (by decide)
  · exact absurd ((ownsBit_iff_number 0 htunnel').mp h).1 (by decide)
  · exact ((ownsBit_iff_number 0 heth).mp h).2.2 _ hboard (by decide) (by decide)
  · have hto := ((ownsBit_iff_number 1 hwireless).mp h).2.1
    exact absurd ((toIfindex_wireless 1 hwireless).mp hto) (by decide)

end Interface

end Chanos.Netif

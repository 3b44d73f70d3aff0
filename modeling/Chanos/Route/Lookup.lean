import Chanos.Arp.Table
import Chanos.Route.Urpf

/-!
# The route of an address

`npd_route_get_egrintf_by_dip` looks for the networks of an address from the longest mask to the
shortest, and then for the neighbour that the route leads to. Addresses and masks are in the order
of the network.
-/

namespace Chanos.Lib

namespace Word

theorem bytesBE_and (x y : UInt32) :
    bytesBE (x &&& y) = List.zipWith (· &&& ·) (bytesBE x) (bytesBE y) := by
  simp only [bytesBE, UInt32.toNat_and, ← Nat.shiftRight_eq_div_pow, Nat.shiftRight_and_distrib,
    UInt8.ofNat_and, List.zipWith_cons_cons, List.zipWith_nil_left]

/-- `htonl` moves whole bytes. -/
theorem htonl_and (e : Endian) (x y : UInt32) : htonl e (x &&& y) = htonl e x &&& htonl e y := by
  cases e with
  | big => rfl
  | little =>
    have hb : bytesBE (htonl .little (x &&& y)) =
        bytesBE (htonl .little x &&& htonl .little y) := by
      rw [bytesBE_and, htonl, htonl, htonl, bytesBE_ofBE rfl, bytesBE_ofBE rfl, bytesBE_ofBE rfl,
        bytesBE_and]
      rfl
    rw [← ofBE_bytesBE (htonl .little (x &&& y)), hb, ofBE_bytesBE]

end Word

/-- What is left of a word under a mask of ones above `k` zeros. -/
theorem and_two_pow_sub {x k : ℕ} (hx : x < 2 ^ 32) (hk : k ≤ 32) :
    x &&& (2 ^ 32 - 2 ^ k) = x / 2 ^ k * 2 ^ k := by
  have hp := Nat.two_pow_pos k
  have hle : 2 ^ k ≤ 2 ^ 32 := Nat.pow_le_pow_right (by decide) hk
  apply Nat.eq_of_testBit_eq
  intro i
  rw [show 2 ^ 32 - 2 ^ k = 2 ^ 32 - ((2 ^ k - 1) + 1) by omega, Nat.testBit_and,
    Nat.testBit_two_pow_sub_succ (by omega), Nat.testBit_two_pow_sub_one, Nat.testBit_mul_two_pow,
    Nat.testBit_div_two_pow]
  by_cases hki : k ≤ i
  · by_cases hi : i < 32
    · simp [hki, hi]
    · have hxi : x < 2 ^ i := hx.trans_le (Nat.pow_le_pow_right (by decide) (by omega))
      simp [hi, hki, Nat.testBit_lt_two_pow hxi]
  · simp [hki]
    omega

end Chanos.Lib

namespace Chanos.Route

open Lib Arp UInt32

variable {e : Endian} {hash : UInt32 → ℕ} {size : ℕ} {p : ArpProduct} {dip : UInt32}

def libGetMaskFromMasklen (e : Endian) (masklen : ℕ) : Option UInt32 :=
  if masklen > 32 then none
  else if masklen = 0 then some 0
  else if masklen = 32 then some 0xFFFFFFFF
  else some (Word.htonl e (-(1 <<< ofNat (32 - masklen))))

def npdRouteFindRoute (tbl : RouteTable hash size) (ipAddr masklen : UInt32) : Option RouteItem :=
  tbl.search (hash ipAddr) fun item => item.DIP = ipAddr ∧ item.masklen = masklen

/-- The loop over the mask lengths, for those below `n` that are left. -/
def routeBelow (e : Endian) (tbl : RouteTable hash size) (dip : UInt32) : ℕ → Option RouteItem
  | 0 => none
  | tmpMask + 1 =>
    let netmask := (libGetMaskFromMasklen e tmpMask).getD 0
    (npdRouteFindRoute tbl (dip &&& netmask) (ofNat tmpMask)).or
      (routeBelow e tbl dip tmpMask)

def npdRouteGetEgrintfByDip (e : Endian) (tbl : RouteTable hash size) (arps : ArpTable p)
    (dip : UInt32) : Option (Bytes 6 × UInt32 × UInt16) := do
  let routeEntry ← routeBelow e tbl dip 33
  let nexthop := if routeEntry.nexthop ≠ 0 then routeEntry.nexthop else dip
  let arpEntry ← npdArpSnoopingFindItemByip arps nexthop
  return (arpEntry.mac, arpEntry.ifIndex, arpEntry.vid)

/-- The bits of an address that are not in the network of the route. -/
def RouteItem.hostBits (r : RouteItem) : ℕ := 32 - r.masklen.toNat

/-- The address begins with the bits of the network. -/
def RouteItem.Contains (e : Endian) (dip : UInt32) (r : RouteItem) : Prop :=
  (Word.htonl e dip).toNat / 2 ^ r.hostBits = (Word.htonl e r.DIP).toNat / 2 ^ r.hostBits

structure NetTable (e : Endian) (hash : UInt32 → ℕ) (size : ℕ) extends RouteTable hash size where
  hostBits : ∀ r ∈ items, 2 ^ r.hostBits ∣ (Word.htonl e r.DIP).toNat

/-- The route of the longest mask, of those for the address with mask lengths below `n`. -/
def Longest (e : Endian) (items : List RouteItem) (dip : UInt32) (n : ℕ) : Option RouteItem → Prop
  | none => ∀ r ∈ items, r.masklen.toNat < n → ¬r.Contains e dip
  | some r => r ∈ items ∧ r.masklen.toNat < n ∧ r.Contains e dip ∧
    ∀ r' ∈ items, r'.masklen.toNat < n → r'.Contains e dip → r'.masklen ≤ r.masklen

theorem htonl_mask {n : ℕ} (hn : n ≤ 32) :
    Word.htonl e ((libGetMaskFromMasklen e n).getD 0) = ofNat (2 ^ 32 - 2 ^ (32 - n)) := by
  revert n
  cases e <;> decide

section

variable (tbl : NetTable e hash size)

theorem and_mask_eq_iff {r : RouteItem} (hr : r ∈ tbl.items)
    (hlen : r.masklen.toNat ≤ 32) :
    dip &&& (libGetMaskFromMasklen e r.masklen.toNat).getD 0 = r.DIP ↔ r.Contains e dip := by
  have hp := Nat.two_pow_pos r.hostBits
  have hi : Function.Injective (Word.htonl e) :=
    Function.LeftInverse.injective (Word.htonl_htonl e)
  have hma : (2 ^ 32 - 2 ^ r.hostBits) % 2 ^ 32 = 2 ^ 32 - 2 ^ r.hostBits :=
    Nat.mod_eq_of_lt (by omega)
  rw [← hi.eq_iff, Word.htonl_and, htonl_mask hlen, ← UInt32.toNat_inj, UInt32.toNat_and,
    UInt32.toNat_ofNat', ← RouteItem.hostBits, hma,
    and_two_pow_sub (UInt32.toNat_lt _) (show r.hostBits ≤ 32 from Nat.sub_le _ _),
    RouteItem.Contains]
  constructor
  · intro h
    rw [← h, Nat.mul_div_cancel _ hp]
  · intro h
    rw [h, Nat.div_mul_cancel (tbl.hostBits r hr)]

theorem routeBelow_longest (dip : UInt32) {n : ℕ} (hn : n ≤ 33) :
    Longest e tbl.items dip n (routeBelow e tbl.toOrderedTable dip n) := by
  induction n with
  | zero => exact fun r _ hlt => absurd hlt (Nat.not_lt_zero _)
  | succ n ih =>
    have hmo : (ofNat n).toNat = n := by
      rw [toNat_ofNat', Nat.mod_eq_of_lt (by omega)]
    rw [routeBelow]
    cases hf : npdRouteFindRoute tbl.toOrderedTable
        (dip &&& (libGetMaskFromMasklen e n).getD 0) (ofNat n) with
    | some r =>
      obtain ⟨hr, heq⟩ := OrderedTable.mem_of_search hf
      obtain ⟨hd, hlen⟩ := of_decide_eq_true heq
      rw [← hlen] at hmo
      refine ⟨hr, by omega, (and_mask_eq_iff tbl hr (by omega)).mp (hmo ▸ hd.symm), ?_⟩
      intro r' _ hlt _
      rw [le_iff_toNat_le]
      omega
    | none =>
      -- No route of this length is for the address.
      have ho : ∀ r ∈ tbl.items, r.Contains e dip → r.masklen.toNat ≠ n := by
        rintro r hr hc rfl
        have hd := (and_mask_eq_iff tbl hr (by omega)).mpr hc
        rw [hd] at hf
        exact OrderedTable.search_eq_none_iff.mp hf r hr rfl (by simp)
      specialize ih (by omega)
      rw [Option.none_or]
      cases hrs : routeBelow e tbl.toOrderedTable dip n with rw [hrs] at ih
      | none => exact fun r hr hlt hc => ih r hr (by have := ho r hr hc; omega) hc
      | some r =>
        obtain ⟨hr, hlt, hc, hma⟩ := ih
        refine ⟨hr, by omega, hc, fun r' hr' hlt' hc' => hma r' hr' ?_ hc'⟩
        have := ho r' hr' hc'
        omega

/-- **The longest route to an address is used**, with the neighbour that it leads to. -/
theorem egrintf_spec (arps : ArpTable p) (dip : UInt32) :
    ∃ used, Longest e tbl.items dip 33 used ∧
      npdRouteGetEgrintfByDip e tbl.toOrderedTable arps dip = used.bind fun r =>
        (npdArpSnoopingFindItemByip arps (if r.nexthop = 0 then dip else r.nexthop)).map
          fun a => (a.mac, a.ifIndex, a.vid) := by
  refine ⟨_, routeBelow_longest tbl dip le_rfl, ?_⟩
  unfold npdRouteGetEgrintfByDip
  simp [ite_not, Option.map_eq_bind]

end

def netRoute (DIP masklen nexthop : UInt32) : RouteItem :=
  ⟨DIP, 0, 0, nexthop, masklen, 5, 0, false, ⟨true, false, false, false⟩⟩

def twoRoutes : RouteTable (fun _ => 0) 4 :=
  ((OrderedTable.empty.insert (netRoute 0x0A000000 8 0x0A000001)).1.insert
    (netRoute 0x0A010000 16 0x0A010001)).1

/-- The route to 10.1.0.0/16 within the one to 10.0.0.0/8. -/
def nestedRoutes : NetTable .big (fun _ => 0) 4 :=
  { twoRoutes with hostBits := by decide }

def neighbours : ArpTable ⟨4, true, .big, false⟩ :=
  (OrderedTable.empty.insert
    { ArpItem.zero with
      mac := Bytes.six 0 0 0 0 0 1
      ifIndex := 7
      ipAddr := 0x0A010001
      vid := 1 }).1

/-- 10.1.2.3 is reached through the neighbour of the longer route. -/
theorem egrintf_spec_nested :
    npdRouteGetEgrintfByDip .big twoRoutes neighbours 0x0A010203 =
      some (Bytes.six 0 0 0 0 0 1, 7, 1) := by
  obtain ⟨used, hlongest, hegrintf⟩ := egrintf_spec nestedRoutes neighbours 0x0A010203
  have hcontains : (netRoute 0x0A010000 16 0x0A010001).Contains .big 0x0A010203 := rfl
  have hused : used = some (netRoute 0x0A010000 16 0x0A010001) := by
    cases used with
    | none => exact absurd hcontains (hlongest _ (by decide) (by decide))
    | some r =>
      have hle := hlongest.2.2.2 _ (by decide) (by decide) hcontains
      have hr : r = netRoute 0x0A000000 8 0x0A000001 ∨ r = netRoute 0x0A010000 16 0x0A010001 := by
        simpa using (show r ∈ [netRoute 0x0A000000 8 0x0A000001, netRoute 0x0A010000 16 0x0A010001]
          from hlongest.1)
      rcases hr with rfl | rfl
      · exact absurd hle (by decide)
      · rfl
  rw [hused] at hegrintf
  exact hegrintf

end Chanos.Route

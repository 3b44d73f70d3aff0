import Chanos.Dhcp.Opt82
import Chanos.Netif.Index

/-!
# What option 82 identifies

The default circuit-id of a packet names its VLAN and its port. Its ASCII form prints the two
numbers without a separator, but the index of an Ethernet port has nine digits and that of a trunk
has ten.
The lengths are right unless the format is neither hexadecimal nor ASCII: then the inner header
announces bytes that are not there (`option82_identifies`).
-/

namespace Chanos.Dhcp

open Lib Netif List

variable {k n : ℕ}

/-! ## Texts of digits -/

theorem decimalValue_sprintf02d (n : ℕ) : decimalValue (sprintf02d n) = n := by
  rw [sprintf02d, if_neg (by omega), Int.natAbs_natCast]
  split_ifs
  · exact (decimalValue_replicate_append 1 _).trans (decimalValue_decimal n)
  · exact decimalValue_decimal n

theorem length_sprintf02d (hge : 10 ^ (k + 1) ≤ n) (hlt : n < 10 ^ (k + 2)) :
    (sprintf02d n).length = k + 2 := by
  have hn : (decimal n).length = k + 2 := by
    have hv := decimalValue_lt fun c => isDigit_of_mem_decimal (c := c) (n := n)
    rw [decimalValue_decimal] at hv
    exact le_antisymm (length_decimal_le (by omega) hlt)
      ((Nat.pow_lt_pow_iff_right (by decide)).mp (hge.trans_lt hv))
  rw [sprintf02d, if_neg (by omega), Int.natAbs_natCast, if_neg (by omega), hn]

/-! ## Circuit-ids -/

section

variable {i i' : UInt32} {v v' : UInt16}

def IsPortIndex (i : UInt32) : Prop :=
  npdNetifTypeGet i = NetifType.eth.code ∨ npdNetifTypeGet i = NetifType.trunk.code

theorem decimalValue_circuit (v : UInt16) (h : IsPortIndex i) :
    ∃ k, decimalValue (sprintf02d v.toNat ++ sprintf02d (signed32 i)) = i.toNat + 10 ^ k * v.toNat ∧
      (k = 9 ∧ i.toNat < 3 * 2 ^ 28 ∧ 2 ^ 29 ≤ i.toNat ∨
        k = 10 ∧ i.toNat < 5 * 2 ^ 28 ∧ 2 ^ 30 ≤ i.toNat) := by
  have hi := i.toNat_lt
  have ht (hlt : i.toNat < 2 ^ 31) {k : ℕ} (hl : (sprintf02d i.toNat).length = k) :
      decimalValue (sprintf02d v.toNat ++ sprintf02d (signed32 i)) = i.toNat + 10 ^ k * v.toNat := by
    rw [signed32_of_lt hlt, decimalValue_append, decimalValue_sprintf02d, decimalValue_sprintf02d, hl]
  rcases h with h | h
  · change i.toNat / 2 ^ 28 % 2 ^ 4 = 2 at h
    exact ⟨9, ht (by omega) (length_sprintf02d (k := 7) (by omega) (by omega)), by omega⟩
  · change i.toNat / 2 ^ 28 % 2 ^ 4 = 4 at h
    exact ⟨10, ht (by omega) (length_sprintf02d (k := 8) (by omega) (by omega)), by omega⟩

theorem circuit_text_inj (hi : IsPortIndex i) (hi' : IsPortIndex i')
    (h : sprintf02d v.toNat ++ sprintf02d (signed32 i) =
      sprintf02d v'.toNat ++ sprintf02d (signed32 i')) : v = v' ∧ i = i' := by
  obtain ⟨k, ht, hk⟩ := decimalValue_circuit v hi
  obtain ⟨k', ht', hk'⟩ := decimalValue_circuit v' hi'
  rw [h, ht'] at ht
  rw [← UInt16.toNat_inj, ← UInt32.toNat_inj]
  rcases hk with ⟨rfl, hk⟩ | ⟨rfl, hk⟩ <;> rcases hk' with ⟨rfl, hk'⟩ | ⟨rfl, hk'⟩ <;> omega

variable {user : Opt82GlobalStatus}

theorem fillContent_inj {type len len' : UInt8} {d d' : List UInt8}
    (h : fillContent user type len d = fillContent user type len' d') : d = d' := by
  rw [fillContent, fillContent] at h
  split_ifs at h
  · exact (cons.inj (cons.inj h).2).2
  · exact h

def UsesDefault : Option StatusItem → Prop
  | none => True
  | some item => item.opt82_circuitid = circuitidTypeDefault

theorem circuitidStr_of_default {item : Option StatusItem} (h : UsesDefault item) (i : UInt32)
    (v : UInt16) :
    circuitidStr user item i v = subopt dhcpCircuitId (defaultCircuitid user i v) := by
  rcases item with _ | item
  · rfl
  · change item.opt82_circuitid = _ at h
    rw [circuitidStr, h, if_neg (by decide), if_pos rfl]

variable (user) in
def HasFormat : Prop :=
  user.dhcp_snp_opt82_format_type = formatTypeHex ∨
    user.dhcp_snp_opt82_format_type = formatTypeAscii

theorem defaultCircuitid_inj (hf : HasFormat user) (hi : IsPortIndex i) (hi' : IsPortIndex i')
    (h : defaultCircuitid user i v = defaultCircuitid user i' v') : v = v' ∧ i = i' := by
  rw [defaultCircuitid, defaultCircuitid] at h
  split_ifs at h with hh ha
  · obtain ⟨hv, hw⟩ := append_inj (fillContent_inj h) rfl
    refine ⟨?_, ?_⟩
    · rw [← Half.ofBE_bytesBE v, ← Half.ofBE_bytesBE v', (append_inj hv rfl).1]
    · rw [← Word.ofBE_bytesBE i, ← Word.ofBE_bytesBE i', hw]
  · exact circuit_text_inj hi hi' (fillContent_inj h)
  · exact absurd hf (not_or.mpr ⟨hh, ha⟩)

/-! ## Lengths -/

/-- The header inside of a content counts the bytes behind it. An empty content has none. -/
def InnerCounted (l : List UInt8) : Prop := l = [] ∨ Counted l

section

variable (he : user.dhcp_snp_opt82_fill_format_type = fillFormatTypeExt)
include he

theorem innerCounted_fill (type len : UInt8) (data : List UInt8) :
    InnerCounted (fillContent user type len data) ↔ len.toNat = data.length := by
  rw [fillContent, if_pos he]
  exact or_iff_right (cons_ne_nil _ _)

theorem innerCounted_default (i : UInt32) (v : UInt16) :
    InnerCounted (defaultCircuitid user i v) ↔ HasFormat user := by
  have hle := length_defaultCircuitid_le user i v
  rw [defaultCircuitid] at hle ⊢
  split_ifs at hle ⊢ with hh ha
  · exact iff_of_true ((innerCounted_fill he ..).mpr rfl) (.inl hh)
  · rw [fillContent, if_pos he, length_cons, length_cons] at hle
    exact iff_of_true ((innerCounted_fill he ..).mpr (counted_subopt 1 (by omega))) (.inr ha)
  · rw [innerCounted_fill he]
    exact iff_of_false (by decide) (not_or.mpr ⟨hh, ha⟩)

theorem innerCounted_circuitid (item : Option StatusItem) (i : UInt32) (v : UInt16) :
    InnerCounted ((circuitidStr user item i v).drop 2) ↔ (UsesDefault item → HasFormat user) := by
  by_cases hd : UsesDefault item
  · rw [circuitidStr_of_default hd, imp_iff_right hd]
    exact innerCounted_default he i v
  · refine iff_of_true ?_ fun h => absurd h hd
    rcases item with _ | item
    · exact absurd trivial hd
    · rw [circuitidStr]
      split_ifs with hu hd'
      · exact (innerCounted_fill he ..).mpr (List.Vector.toList_length _).symm
      · exact absurd hd' hd
      · exact .inl rfl

theorem innerCounted_remoteid (mac : Bytes 6) : InnerCounted ((remoteidStr user mac).drop 2) ↔
    (user.dhcp_snp_opt82_remoteid_type = remoteidTypeSysmac → HasFormat user) := by
  rw [remoteidStr]
  split_ifs with hm hh ha
  · exact iff_of_true ((innerCounted_fill he ..).mpr mac.toList_length.symm) fun _ => .inl hh
  · refine iff_of_true ((innerCounted_fill he ..).mpr ?_) fun _ => .inr ha
    rw [length_flatMap_sprintf2x, mac.toList_length]
    rfl
  · refine iff_of_false (fun h => ?_) fun h => not_or.mpr ⟨hh, ha⟩ (h hm)
    exact absurd ((innerCounted_fill he ..).mp h) (by decide)
  · exact iff_of_true ((innerCounted_fill he ..).mpr (List.Vector.toList_length _).symm)
      fun h => absurd h hm

end

end

section

variable (env : Opt82Env) (user : Opt82GlobalStatus) (i : UInt32) (v : UInt16)

/-- The option holds the two sub-options one behind the other, and each length counts the bytes
behind it, with those inside of the sub-options in the extended format. -/
def Delimited : Prop :=
  ∃ circuitid_str remoteid_str, npdDhcpSnpGetOpt82PortCircuitid env i v = some circuitid_str ∧
    npdDhcpSnpGetOpt82PortRemoteid env = some remoteid_str ∧
    npdDhcpSnpCatOpt82Sting circuitid_str remoteid_str =
      subopt dhcpOption82 (circuitid_str ++ remoteid_str) ∧
    (Counted (npdDhcpSnpCatOpt82Sting circuitid_str remoteid_str) ∧ Counted circuitid_str ∧
      Counted remoteid_str) ∧
    (user.dhcp_snp_opt82_fill_format_type = fillFormatTypeExt →
      InnerCounted (circuitid_str.drop 2) ∧ InnerCounted (remoteid_str.drop 2))

variable {env user} (hu : env.global_cfg = some user)
include hu

theorem delimited_iff : Delimited env user i v ↔
    (user.dhcp_snp_opt82_fill_format_type = fillFormatTypeExt →
      (UsesDefault (env.status_item i) → HasFormat user) ∧
        (user.dhcp_snp_opt82_remoteid_type = remoteidTypeSysmac → HasFormat user)) := by
  have hcat := catOpt82Sting_eq env user i v
  have hlen := length_localSubOptions_lt env user i v
  rw [Delimited, npdDhcpSnpGetOpt82PortCircuitid, npdDhcpSnpGetOpt82PortRemoteid, hu,
    Option.map_some, Option.map_some]
  constructor
  · rintro ⟨_, _, ⟨⟩, ⟨⟩, -, -, h⟩ he
    exact (h he).imp (innerCounted_circuitid he _ i v).mp (innerCounted_remoteid he _).mp
  · refine fun h => ⟨_, _, rfl, rfl, hcat, ⟨?_, ?_, ?_⟩, fun he => (h he).imp ?_ ?_⟩
    · exact hcat ▸ counted_subopt _ (by omega)
    · exact (counted_circuitidStr ..).1
    · exact (counted_remoteidStr ..).1
    · exact (innerCounted_circuitid he _ i v).mpr
    · exact (innerCounted_remoteid he _).mpr

/-- The default circuit-id identifies the VLAN and the port, and the lengths of the option are right
exactly when no inner header is written for a format that is neither hexadecimal nor ASCII. -/
theorem option82_identifies :
    (HasFormat user → ∀ i i' v v', IsPortIndex i → IsPortIndex i' →
      UsesDefault (env.status_item i) → UsesDefault (env.status_item i') →
      npdDhcpSnpGetOpt82PortCircuitid env i v = npdDhcpSnpGetOpt82PortCircuitid env i' v' →
      v = v' ∧ i = i') ∧
    ∀ i v, Delimited env user i v ↔
      (user.dhcp_snp_opt82_fill_format_type = fillFormatTypeExt →
        (UsesDefault (env.status_item i) → HasFormat user) ∧
          (user.dhcp_snp_opt82_remoteid_type = remoteidTypeSysmac → HasFormat user)) := by
  refine ⟨fun hf i i' v v' hi hi' hm hm' h => ?_, fun i v => delimited_iff i v hu⟩
  rw [npdDhcpSnpGetOpt82PortCircuitid, npdDhcpSnpGetOpt82PortCircuitid, hu, Option.map_some,
    Option.map_some, circuitidStr_of_default hm, circuitidStr_of_default hm'] at h
  exact defaultCircuitid_inj hf hi hi' (cons.inj (cons.inj (Option.some.inj h)).2).2

end

def formatUser (format : UInt8) : Opt82GlobalStatus :=
  ⟨format, fillFormatTypeExt, remoteidTypeSysmac, .replicate 64 0⟩

def formatEnv (format : UInt8) : Opt82Env :=
  ⟨some (formatUser format), fun _ => none, .replicate 6 0, 32⟩

/-- In the ASCII format the circuit ids of two ports in different VLANs differ. -/
theorem option82_identifies_ascii :
    Delimited (formatEnv formatTypeAscii) (formatUser formatTypeAscii) 0x20004000 11 ∧
      npdDhcpSnpGetOpt82PortCircuitid (formatEnv formatTypeAscii) 0x20004000 11 ≠
        npdDhcpSnpGetOpt82PortCircuitid (formatEnv formatTypeAscii) 0x40010000 1 := by
  obtain ⟨hi, hd⟩ := @option82_identifies (formatEnv formatTypeAscii) _ rfl
  refine ⟨(hd _ _).mpr fun _ => ⟨fun _ => .inr rfl, fun _ => .inr rfl⟩, fun h => ?_⟩
  have hv := (hi (.inr rfl) _ _ _ _ (.inl (by decide)) (.inr (by decide)) trivial trivial h).1
  cases hv

/-- A format other than the two that the code knows delimits nothing. -/
theorem not_delimited_of_format_two : ¬Delimited (formatEnv 2) (formatUser 2) 0x20004000 11 :=
  fun h => absurd (((delimited_iff _ _ rfl).mp h rfl).1 trivial) (not_or.mpr ⟨by decide, by decide⟩)

end Chanos.Dhcp

import Chanos.Database.Table
import Chanos.Lib.Checksum

/-!
# The checksums of a rewritten frame

`npd_dhcp_snp_checksum` adds the 16-bit words of a block of memory in a signed `int`, and
`npd_dhcp_information_checksum` computes with it the UDP and the IP checksum of a frame. The header
of the frame is made into a pseudo-header for the first of the two, and is put back for the second.
-/

namespace Chanos.Dhcp

open Lib Database List Half Nat UInt8

def addWords (e : Endian) : List UInt8 → ℤ → ℤ
  | [], sum => sum
  | [a], sum => wrap32 (sum + (ofBytes e [a, 0]).toNat)
  | a :: b :: source, sum => addWords e source (wrap32 (sum + (ofBytes e [a, b]).toNat))

def foldSum (sum : ℤ) : ℤ :=
  if sum / 2 ^ 16 = 0 then sum else foldSum (sum % 2 ^ 16 + sum / 2 ^ 16)
-- A negative sum may fold to a larger number, but to one of 16 bits.
termination_by if sum < 0 then sum.natAbs + 2 ^ 16 else sum.natAbs
decreasing_by
  split_ifs <;> omega

variable (e : Endian)

def npdDhcpSnpChecksum (source : List UInt8) (count : ℕ) : Except Fault UInt16 :=
  if source.length < count then .error .outOfBounds
  else .ok (UInt16.ofInt (-foldSum (addWords e (source.take count) 0) - 1))

section

variable (e : Endian) (source : List UInt8)

theorem addWords_eq (sum : ℤ) :
    wrap32 (addWords e source sum) = wrap32 (sum + hostSum e source) := by
  fun_induction addWords e source sum with
  | case1 sum => rw [hostSum, cast_zero, add_zero]
  | case2 a sum => rw [hostSum, wrap32, wrap32, Int.bmod_bmod]
  | case3 a b source sum ih =>
    rw [ih, hostSum, wrap32, wrap32, wrap32, Int.bmod_add_bmod, cast_add, add_assoc]

theorem wrap32_addWords {sum : ℤ} (h : wrap32 sum = sum) :
    wrap32 (addWords e source sum) = addWords e source sum := by
  fun_induction addWords e source sum with
  | case1 sum => exact h
  | case2 a sum => rw [wrap32, wrap32, Int.bmod_bmod]
  | case3 a b source sum ih => exact ih (Int.bmod_bmod ..)

theorem addWords_zero : addWords e source 0 = wrap32 (hostSum e source) := by
  rw [← wrap32_addWords e source (by decide : wrap32 0 = 0), addWords_eq, zero_add]

end

theorem foldSum_range (sum : ℤ) : 0 ≤ foldSum sum ∧ foldSum sum ≤ 65535 := by
  fun_induction foldSum sum with
  | case1 sum h => omega
  | case2 sum h ih => exact ih

theorem foldSum_emod (sum : ℤ) : foldSum sum % 65535 = sum % 65535 := by
  fun_induction foldSum sum with
  | case1 sum h => rfl
  | case2 sum h ih => omega

theorem foldSum_eq_zero_iff {sum : ℤ} (h : 0 ≤ sum) : foldSum sum = 0 ↔ sum = 0 := by
  fun_induction foldSum sum with
  | case1 sum hd => rfl
  | case2 sum hf ih =>
    rw [ih (by omega)]
    omega

theorem foldSum_wrapped {n : ℕ} (h0 : 2 ^ 31 ≤ n) (h1 : n < 2 ^ 32) :
    ((foldSum (wrap32 n)).toNat + 1) % 65535 = n % 65535 := by
  have hwr : wrap32 n = n - 4294967296 := by
    rw [wrap32, Int.bmod_def]
    omega
  have hr := foldSum_range (wrap32 n)
  have hmo := foldSum_emod (wrap32 n)
  rw [hwr] at hr hmo ⊢
  omega

theorem toNat_ofInt_compl {z : ℤ} (h0 : 0 ≤ z) (h1 : z ≤ 65535) :
    (UInt16.ofInt (-z - 1)).toNat = 65535 - z.toNat := by
  have hmo : (-z - 1) % 2 ^ 16 = 65535 - z := by omega
  rw [UInt16.ofInt, hmo, UInt16.toNat_ofNat']
  omega

section

variable {e : Endian} {source : List UInt8} {count : ℕ}

section

variable (hlen : count ≤ source.length)
include hlen

theorem checksum_ok :
    ∃ r, npdDhcpSnpChecksum e source count = .ok r ∧
      r.toNat = 65535 - (foldSum (wrap32 (hostSum e (source.take count)))).toNat := by
  refine ⟨_, if_neg (by omega), ?_⟩
  obtain ⟨h0, h1⟩ := foldSum_range (addWords e (source.take count) 0)
  rw [toNat_ofInt_compl h0 h1, addWords_zero]

theorem htons_checksum_of_lt (hsu : hostSum e (source.take count) < 2 ^ 31) :
    ∃ r, npdDhcpSnpChecksum e source count = .ok r ∧
      htons e r = internetChecksum (source.take count) := by
  obtain ⟨r, hr, htoNat⟩ := checksum_ok (e := e) hlen
  refine ⟨r, hr, htons_eq_internetChecksum ?_⟩
  rw [wrap32_of_lt (Int.natCast_nonneg _) (by omega)] at htoNat
  have hf : (foldSum (hostSum e (source.take count))).toNat =
      onesRep (hostSum e (source.take count)) := by
    have hrn := foldSum_range (hostSum e (source.take count))
    have hmo := foldSum_emod (hostSum e (source.take count))
    have hz := foldSum_eq_zero_iff (Int.natCast_nonneg (hostSum e (source.take count)))
    exact eq_onesRep_of_mod (by omega) (by omega) (by omega)
  rw [htoNat, hf]

theorem checksum_wrapped (hc : count ≤ 65555) (hsu : 2 ^ 31 ≤ hostSum e (source.take count)) :
    ∃ r, npdDhcpSnpChecksum e source count = .ok r ∧
      (wordSum (source.take count) + (htons e r).toNat) % 65535 ≠ 0 := by
  obtain ⟨r, hr, htoNat⟩ := checksum_ok (e := e) hlen
  refine ⟨r, hr, ?_⟩
  have hma : hostSum e (source.take count) < 2 ^ 32 := by
    have hle := hostSum_le e (source.take count)
    rw [length_take] at hle
    omega
  have hrn := foldSum_range (wrap32 (hostSum e (source.take count)))
  exact wordSum_add_htons_ne (by omega) htoNat (foldSum_wrapped hsu hma)

theorem checksum_iff (hc : count ≤ 65555) :
    ∃ r, npdDhcpSnpChecksum e source count = .ok r ∧
      (toBytes e r = bytesBE (internetChecksum (source.take count)) ↔
        hostSum e (source.take count) < 2 ^ 31) := by
  rcases lt_or_ge (hostSum e (source.take count)) (2 ^ 31) with hsu | hsu
  · obtain ⟨r, hr, heq⟩ := htons_checksum_of_lt hlen hsu
    exact ⟨r, hr, iff_of_true (toBytes_eq_iff.mpr heq) hsu⟩
  · obtain ⟨r, hr, hne⟩ := checksum_wrapped hlen hc hsu
    refine ⟨r, hr, iff_of_false (fun h => hne ?_) (by omega)⟩
    rw [toBytes_eq_iff.mp h]
    exact (onesRep_eq_max_iff.mp (onesRep_wordSum_add_internetChecksum _)).2

end

end

/-! ## The checksums of a frame -/

/-- The IP header without options, `struct iphdr`. -/
structure IpHdr where
  ver_ihl : UInt8
  tos : UInt8
  tot_len : UInt16
  id : UInt16
  frag_off : UInt16
  ttl : UInt8
  protocol : UInt8
  check : UInt16
  saddr : UInt32
  daddr : UInt32
  deriving DecidableEq

structure UdpHdr where
  source : UInt16
  dest : UInt16
  len : UInt16
  check : UInt16
  deriving DecidableEq

variable (ip : IpHdr)

def IpHdr.bytes : List UInt8 :=
  [ip.ver_ihl, ip.tos] ++ bytesBE ip.tot_len ++ bytesBE ip.id ++
    bytesBE ip.frag_off ++ [ip.ttl, ip.protocol] ++ bytesBE ip.check ++
    Word.bytesBE ip.saddr ++ Word.bytesBE ip.daddr

variable (udp : UdpHdr)

def UdpHdr.bytes : List UInt8 :=
  bytesBE udp.source ++ bytesBE udp.dest ++ bytesBE udp.len ++
    bytesBE udp.check

def ipprotoUdp : UInt8 := 17

def sizeofIphdr : ℕ := 20

def cheatHdr : IpHdr where
  ver_ihl := 0
  tos := 0
  tot_len := udp.len
  id := 0
  frag_off := 0
  ttl := 0
  protocol := ipprotoUdp
  check := 0
  saddr := ip.saddr
  daddr := ip.daddr

variable (payload : List UInt8)

/-- `npd_dhcp_information_checksum`, where `payload` is the memory of the packet after the UDP
header. -/
def npdDhcpInformationChecksum :
    Except Fault (IpHdr × UdpHdr) := do
  let cleared := { udp with check := 0 }
  let udp ←
    if udp.check ≠ 0 then do
      let r ← npdDhcpSnpChecksum e ((cheatHdr ip cleared).bytes ++ cleared.bytes ++ payload)
        (cleared.len.toNat + sizeofIphdr)
      pure { cleared with check := htons e r }
    else pure cleared
  let r ← npdDhcpSnpChecksum e { ip with check := 0 }.bytes sizeofIphdr
  pure ({ ip with check := htons e r }, udp)

def pseudoHeader : List UInt8 :=
  Word.bytesBE ip.saddr ++ Word.bytesBE ip.daddr ++ [0, ipprotoUdp] ++ bytesBE udp.len

def datagram : List UInt8 :=
  (udp.bytes ++ payload).take udp.len.toNat

structure ChecksumsValid (used : Prop) (ip : IpHdr) (udp : UdpHdr) (payload : List UInt8) :
    Prop where
  ip_sum : onesSum ip.bytes = 65535
  udp_check : used → udp.check ≠ 0
  udp_sum : used → onesSum (pseudoHeader ip udp ++ datagram udp payload) = 65535

def udpBytes : List UInt8 :=
  pseudoHeader ip udp ++ datagram { udp with check := 0 } payload

/-- When the UDP checksum comes out right: the datagram lies in the memory of the packet, the sum of
its words is less than `2^31` and not all ones already, and the checksum field is part of the
datagram. -/
structure UdpSumFits (e : Endian) (ip : IpHdr) (udp : UdpHdr) (payload : List UInt8) : Prop where
  in_memory : udp.len.toNat ≤ 8 + payload.length
  no_wrap : hostSum e (udpBytes ip udp payload) < 2 ^ 31
  not_ones : wordSum (udpBytes ip udp payload) % 65535 ≠ 0
  has_field : 8 ≤ udp.len.toNat ∨
    udp.len.toNat = 7 ∧ wordSum (udpBytes ip udp payload) % 65535 % 256 = 255

theorem wordSum_bytesBE (x : UInt16) : wordSum (bytesBE x) = x.toNat := by
  have hx := x.toNat_lt
  simp only [bytesBE, wordSum, toNat_ofNat']
  omega

open IpHdr

@[simp]
theorem IpHdr.length_bytes : ip.bytes.length = 20 := rfl

@[simp]
theorem UdpHdr.length_bytes : udp.bytes.length = 8 := rfl

theorem IpHdr.wordSum_check (c : UInt16) :
    wordSum { ip with check := c }.bytes = wordSum { ip with check := 0 }.bytes + c.toNat := by
  have hc := wordSum_bytesBE c
  have h0 := wordSum_bytesBE 0
  simp only [bytes, bytesBE, Word.bytesBE, cons_append, nil_append, wordSum] at hc h0 ⊢
  have hz : (0 : UInt16).toNat = 0 := rfl
  rw [hz] at h0 ⊢
  linarith

theorem hostSum_cheatHdr : hostSum e (cheatHdr ip udp).bytes = hostSum e (pseudoHeader ip udp) := by
  have hze : (ofBytes e [0, 0]).toNat = 0 := by cases e <;> rfl
  simp only [cheatHdr, pseudoHeader, bytes, bytesBE, Word.bytesBE, cons_append, nil_append, hostSum]
  have hz : ofNat ((0 : UInt16).toNat / 2 ^ 8) = 0 ∧ ofNat (0 : UInt16).toNat = 0 :=
    ⟨rfl, rfl⟩
  rw [hz.1, hz.2, hze]
  omega

abbrev cheatBytes : List UInt8 :=
  (cheatHdr ip { udp with check := 0 }).bytes ++ { udp with check := 0 }.bytes ++ payload

theorem length_cheatBytes : (cheatBytes ip udp payload).length = 28 + payload.length := by
  rw [length_append, length_append, length_bytes, UdpHdr.length_bytes]

theorem hostSum_take_cheat : hostSum e ((cheatBytes ip udp payload).take
    (udp.len.toNat + sizeofIphdr)) = hostSum e (udpBytes ip udp payload) := by
  rw [cheatBytes, append_assoc, take_append, length_bytes,
    take_of_length_le (by rw [length_bytes, sizeofIphdr]; omega), sizeofIphdr,
    Nat.add_sub_cancel, hostSum_append _ (by rw [length_bytes]; decide), hostSum_cheatHdr,
    udpBytes, hostSum_append _ (by show Even 12; decide)]
  rfl

def fieldPart (len : ℕ) (c : UInt16) : ℕ :=
  if 8 ≤ len then c.toNat else if len = 7 then c.toNat / 256 * 256 else 0

theorem wordSum_datagram (c : UInt16) :
    wordSum (datagram { udp with check := c } payload) =
      wordSum (datagram { udp with check := 0 } payload) + fieldPart udp.len.toNat c := by
  have hsp (c : UInt16) : datagram { udp with check := c } payload =
      ((bytesBE udp.source ++ bytesBE udp.dest ++ bytesBE udp.len) ++
        (bytesBE c ++ payload)).take udp.len.toNat := by
    rw [datagram, UdpHdr.bytes, append_assoc _ (bytesBE c)]
  have hp : (bytesBE udp.source ++ bytesBE udp.dest ++ bytesBE udp.len).length = 6 := rfl
  rw [hsp c, hsp 0, fieldPart]
  generalize bytesBE udp.source ++ bytesBE udp.dest ++ bytesBE udp.len = ports at hp
  have he : Even ports.length := by
    rw [hp]
    decide
  rcases le_or_gt udp.len.toNat 6 with hsh | hlo
  · -- The datagram ends before the field.
    rw [take_append_of_le_length (by omega), take_append_of_le_length (by omega),
      if_neg (by omega), if_neg (by omega), add_zero]
  · have ht (l : List UInt8) : (ports ++ l).take udp.len.toNat =
        ports ++ l.take (udp.len.toNat - 6) := by
      rw [take_append, hp, take_of_length_le (by omega)]
    have hb := wordSum_bytesBE c
    rw [ht, ht, ← hostSum_big, ← hostSum_big, hostSum_append _ he, hostSum_append _ he,
      hostSum_big, hostSum_big, hostSum_big, add_assoc, add_left_cancel_iff]
    rcases eq_or_ne udp.len.toNat 7 with hse | hne
    · rw [hse, if_neg (by omega), if_pos rfl]
      have hh : (ofNat (c.toNat / 2 ^ 8)).toNat = c.toNat / 256 := by
        have hc := c.toNat_lt
        rw [toNat_ofNat']
        omega
      show (ofNat (c.toNat / 2 ^ 8)).toNat * 256 = 0 + c.toNat / 256 * 256
      rw [hh, zero_add]
    · have hei : udp.len.toNat - 6 = (udp.len.toNat - 8) + 2 := by omega
      rw [if_pos (by omega), hei, ← hb]
      simp only [bytesBE, cons_append, nil_append, take_succ_cons, wordSum]
      have hz : (0 : UInt16).toNat = 0 := rfl
      rw [hz]
      show _ = 0 * 256 + 0 + _ + _
      omega

/-! ## When the checksums are valid -/

section

variable {e : Endian} {ip : IpHdr} {udp : UdpHdr} {payload : List UInt8}

theorem exists_ip_check (e : Endian) (ip : IpHdr) :
    ∃ r, npdDhcpSnpChecksum e { ip with check := 0 }.bytes sizeofIphdr = .ok r ∧
      onesSum { ip with check := htons e r }.bytes = 65535 := by
  have ht : { ip with check := 0 }.bytes.take sizeofIphdr = { ip with check := 0 }.bytes :=
    take_of_length_le (by rw [length_bytes, sizeofIphdr])
  have hsu := hostSum_le e { ip with check := 0 }.bytes
  rw [length_bytes] at hsu
  obtain ⟨r, hr, hc⟩ := htons_checksum_of_lt (e := e)
    (show sizeofIphdr ≤ { ip with check := 0 }.bytes.length from le_rfl) (by rw [ht]; omega)
  refine ⟨r, hr, ?_⟩
  rw [hc, ht, onesSum_eq, wordSum_check]
  exact onesRep_wordSum_add_internetChecksum _

section

variable (ip : IpHdr) (udp : UdpHdr) (payload : List UInt8)

theorem onesSum_datagram (c : UInt16) :
    onesSum (pseudoHeader ip udp ++ datagram { udp with check := c } payload) =
      onesRep (wordSum (udpBytes ip udp payload) + fieldPart udp.len.toNat c) := by
  have he : Even (pseudoHeader ip udp).length := by
    show Even 12
    decide
  rw [onesSum_eq, udpBytes, ← hostSum_big, hostSum_append _ he, hostSum_big, hostSum_big,
    wordSum_datagram, ← add_assoc, ← hostSum_big, ← hostSum_big, ← hostSum_append _ he,
    hostSum_big]

theorem wordSum_udpBytes_ne_zero : wordSum (udpBytes ip udp payload) ≠ 0 := by
  have hp : ipprotoUdp.toNat = 17 := rfl
  simp only [udpBytes, pseudoHeader, Word.bytesBE, bytesBE, cons_append, nil_append, wordSum]
  omega

end

theorem long_of_wrap (h : 2 ^ 31 ≤ hostSum e (udpBytes ip udp payload)) : 8 ≤ udp.len.toNat := by
  by_contra hsh
  have hlen : (udpBytes ip udp payload).length ≤ 12 + udp.len.toNat := by
    rw [udpBytes, length_append, datagram, length_take]
    exact Nat.add_le_add_left (Nat.min_le_left ..) 12
  have hle := hostSum_le e (udpBytes ip udp payload)
  omega

theorem internetChecksum_fits_iff {l : List UInt8} (hl : wordSum l ≠ 0) (len : ℕ) :
    (internetChecksum l ≠ 0 ∧ onesRep (wordSum l + fieldPart len (internetChecksum l)) = 65535) ↔
    wordSum l % 65535 ≠ 0 ∧ (8 ≤ len ∨ len = 7 ∧ wordSum l % 65535 % 256 = 255) := by
  have hle := onesRep_le (wordSum l)
  have hmo := onesRep_mod (wordSum l)
  have hz := @onesRep_eq_zero_iff (wordSum l)
  have ho : (internetChecksum l ≠ 0) ↔ wordSum l % 65535 ≠ 0 := by
    rw [Ne, internetChecksum_eq_zero_iff, not_and]
    exact ⟨fun h => h hl, fun h _ => h⟩
  rw [ho, and_congr_right_iff]
  intro hn
  rcases le_or_gt 8 len with hlo | hsh
  · rw [fieldPart, if_pos hlo]
    exact iff_of_true (onesRep_wordSum_add_internetChecksum l) (Or.inl hlo)
  rw [onesRep_eq_max_iff, fieldPart, if_neg (by omega), toNat_internetChecksum]
  split_ifs with hse
  · -- The complement of `v` has the high byte `255 - v / 256`.
    have hr : onesRep (wordSum l) = wordSum l % 65535 := by omega
    have hlt : wordSum l % 65535 < 65535 := mod_lt _ (by norm_num)
    have hh : (65535 - wordSum l % 65535) / 256 = 255 - wordSum l % 65535 / 256 := by omega
    rw [hr, hh]
    omega
  · omega

theorem exists_udp_check (e : Endian) (ip : IpHdr) (hme : udp.len.toNat ≤ 8 + payload.length) :
    ∃ r, npdDhcpSnpChecksum e (cheatBytes ip udp payload) (udp.len.toNat + sizeofIphdr) = .ok r ∧
      ((htons e r ≠ 0 ∧ onesSum (pseudoHeader ip udp ++
        datagram { udp with check := htons e r } payload) = 65535) ↔
          UdpSumFits e ip udp payload) := by
  have hwd := hostSum_take_cheat .big ip udp payload
  rw [hostSum_big, hostSum_big] at hwd
  have hsu := hostSum_take_cheat e ip udp payload
  have hlen : udp.len.toNat + sizeofIphdr ≤ (cheatBytes ip udp payload).length := by
    rw [length_cheatBytes, sizeofIphdr]
    omega
  rcases lt_or_ge (hostSum e (udpBytes ip udp payload)) (2 ^ 31) with hlt | hge
  · obtain ⟨r, hr, hc⟩ := htons_checksum_of_lt hlen (hsu ▸ hlt)
    rw [internetChecksum, onesSum_eq, hwd, ← onesSum_eq, ← internetChecksum] at hc
    refine ⟨r, hr, ?_⟩
    rw [hc, onesSum_datagram, internetChecksum_fits_iff (wordSum_udpBytes_ne_zero ip udp payload)]
    exact ⟨fun h => ⟨hme, hlt, h.1, h.2⟩, fun h => ⟨h.not_ones, h.has_field⟩⟩
  · have hcn : udp.len.toNat + sizeofIphdr ≤ 65555 := by
      have hma := udp.len.toNat_lt
      rw [sizeofIphdr]
      omega
    obtain ⟨r, hr, hne⟩ := checksum_wrapped hlen hcn (hsu ▸ hge)
    rw [hwd] at hne
    refine ⟨r, hr, iff_of_false (fun h => hne ?_) (fun h => absurd h.no_wrap (by omega))⟩
    have ho := h.2
    rw [onesSum_datagram, fieldPart, if_pos (long_of_wrap hge), onesRep_eq_max_iff] at ho
    exact ho.2

theorem udp_check_outOfBounds (hme : 8 + payload.length < udp.len.toNat) :
    npdDhcpSnpChecksum e (cheatBytes ip udp payload) (udp.len.toNat + sizeofIphdr) =
      .error .outOfBounds := by
  refine if_pos ?_
  rw [length_cheatBytes, sizeofIphdr]
  omega

theorem informationChecksum_cases (e : Endian) (ip : IpHdr) (udp : UdpHdr) (payload : List UInt8) :
    (∃ c c', npdDhcpInformationChecksum e ip udp payload =
        .ok ({ ip with check := c }, { udp with check := c' }) ∧
      (udp.check ≠ 0 → udp.len.toNat ≤ 8 + payload.length) ∧
      onesSum { ip with check := c }.bytes = 65535 ∧
      (udp.check ≠ 0 → ((c' ≠ 0 ∧ onesSum (pseudoHeader ip udp ++
        datagram { udp with check := c' } payload) = 65535) ↔ UdpSumFits e ip udp payload))) ∨
    npdDhcpInformationChecksum e ip udp payload = .error .outOfBounds ∧ udp.check ≠ 0 ∧
      8 + payload.length < udp.len.toNat := by
  obtain ⟨ri, hr, hip⟩ := exists_ip_check e ip
  by_cases hu : udp.check ≠ 0
  · rcases le_or_gt udp.len.toNat (8 + payload.length) with hme | hme
    · obtain ⟨ru, hru, hv⟩ := exists_udp_check e ip hme
      refine .inl ⟨htons e ri, htons e ru, ?_, fun _ => hme, hip, fun _ => hv⟩
      rw [npdDhcpInformationChecksum, if_pos hu, hru, hr]
      rfl
    · refine .inr ⟨?_, hu, hme⟩
      rw [npdDhcpInformationChecksum, if_pos hu, udp_check_outOfBounds hme]
      rfl
  · refine .inl ⟨htons e ri, 0, ?_, fun h => absurd h hu, hip, fun h => absurd h hu⟩
    rw [npdDhcpInformationChecksum, if_neg hu, hr]
    rfl

theorem informationChecksum_valid_iff :
    (∃ ip' udp', npdDhcpInformationChecksum e ip udp payload = .ok (ip', udp') ∧
      ChecksumsValid (udp.check ≠ 0) ip' udp' payload) ↔
    (udp.check ≠ 0 → UdpSumFits e ip udp payload) := by
  rcases informationChecksum_cases e ip udp payload with
    ⟨c, c', hrun, -, hip, hv⟩ | ⟨hrun, hu, hme⟩
  · constructor
    · rintro ⟨ip', udp', hrun', hb⟩ hu
      obtain ⟨rfl, rfl⟩ := Prod.mk.inj (Except.ok.inj (hrun.symm.trans hrun'))
      exact (hv hu).mp ⟨hb.udp_check hu, hb.udp_sum hu⟩
    · intro hf
      exact ⟨_, _, hrun, hip, fun hu => ((hv hu).mpr (hf hu)).1,
        fun hu => ((hv hu).mpr (hf hu)).2⟩
  · refine iff_of_false ?_ (fun h => absurd (h hu).in_memory (by omega))
    rintro ⟨ip', udp', hrun', -⟩
    cases hrun.symm.trans hrun'

end

/-- The checksum of a block of memory is the Internet checksum exactly when the sum of its words
does not wrap, and the checksums of a frame are valid exactly when none was in use for UDP or its
sum fits. -/
theorem checksums_iff (e : Endian) :
    (∀ (source : List UInt8) (count : ℕ), count ≤ 65555 → count ≤ source.length →
      ∃ r, npdDhcpSnpChecksum e source count = .ok r ∧
        (toBytes e r = bytesBE (internetChecksum (source.take count)) ↔
          hostSum e (source.take count) < 2 ^ 31)) ∧
    ∀ (ip : IpHdr) (udp : UdpHdr) (payload : List UInt8),
      (∃ ip' udp', npdDhcpInformationChecksum e ip udp payload = .ok (ip', udp') ∧
        ChecksumsValid (udp.check ≠ 0) ip' udp' payload) ↔
      (udp.check ≠ 0 → UdpSumFits e ip udp payload) :=
  ⟨fun _ _ hcount hlen => checksum_iff hlen hcount,
    fun _ _ _ => informationChecksum_valid_iff⟩

theorem hostSum_replicate (n : ℕ) : hostSum e (replicate (2 * n) 0xFF) = 65535 * n := by
  have ho : (ofBytes e [0xFF, 0xFF]).toNat = 65535 := by cases e <;> rfl
  induction n with
  | zero => rfl
  | succ n ih =>
    rw [show 2 * (n + 1) = 2 * n + 1 + 1 from rfl, replicate_succ, replicate_succ, hostSum, ih, ho]
    omega

def sampleIpHdr : IpHdr where
  ver_ihl := 0x45
  tos := 0
  tot_len := 30
  id := 0
  frag_off := 0
  ttl := 64
  protocol := ipprotoUdp
  check := 0
  saddr := 0
  daddr := 0xFFFFFFFF

def sampleUdpHdr : UdpHdr where
  source := 68
  dest := 67
  len := 10
  check := 1

/-- The checksums of the sample datagram with two zeros in it are valid, and the odd block of three
bytes has its Internet checksum. -/
theorem checksums_sample :
    (∃ ip' udp',
      npdDhcpInformationChecksum .little sampleIpHdr sampleUdpHdr [0, 0] = .ok (ip', udp') ∧
        ChecksumsValid (sampleUdpHdr.check ≠ 0) ip' udp' [0, 0]) ∧
    ∃ r, npdDhcpSnpChecksum .little [1, 2, 3] 3 = .ok r ∧
      (toBytes .little r = bytesBE (internetChecksum [1, 2, 3]) ↔
        hostSum .little [1, 2, 3] < 2 ^ 31) :=
  ⟨((checksums_iff .little).2 sampleIpHdr sampleUdpHdr [0, 0]).mpr
      fun _ => ⟨by decide, by decide, by decide, by decide⟩,
    (checksums_iff .little).1 [1, 2, 3] 3 (by decide) (by decide)⟩

/-- A payload of `FF53` makes the words of the sample datagram add up to all ones, so that the
checksum is stored as zero. And 65538 bytes of ones have a sum of `2^31` or more. -/
theorem checksums_broken :
    (∀ e : Endian, ¬∃ ip' udp',
      npdDhcpInformationChecksum e sampleIpHdr sampleUdpHdr [0xFF, 0x53] = .ok (ip', udp') ∧
        ChecksumsValid (sampleUdpHdr.check ≠ 0) ip' udp' [0xFF, 0x53]) ∧
    ∀ e : Endian, ∃ r, npdDhcpSnpChecksum e (List.replicate 65538 0xFF) 65538 = .ok r ∧
      toBytes e r ≠ bytesBE (internetChecksum (List.replicate 65538 0xFF)) := by
  constructor
  · intro e h
    have hfits := informationChecksum_valid_iff.mp h (by decide)
    exact hfits.not_ones (by decide)
  · intro e
    have htake : (replicate 65538 (0xFF : UInt8)).take 65538 = replicate 65538 0xFF :=
      take_of_length_le (by rw [length_replicate])
    have hsum := hostSum_replicate e 32769
    obtain ⟨r, hr, hiff⟩ := checksum_iff (e := e)
      (show 65538 ≤ (replicate 65538 (0xFF : UInt8)).length from by rw [length_replicate])
      (by norm_num)
    rw [htake] at hiff
    refine ⟨r, hr, fun h => ?_⟩
    have hlt := hiff.mp h
    rw [show (65538 : ℕ) = 2 * 32769 from rfl, hsum] at hlt
    omega

end Chanos.Dhcp

import Chanos.Lib.Decimal
import Chanos.Netif.Index

/-!
# The names of interfaces

`npd_netif_index_to_name` prints the name of an interface for the kernel, and three other functions
for the user. Each has a word for every type of interface, with its numbers behind it. On a chassis
the names for the user leave out the module of a port, and the interfaces that share a name are the
ports that differ only in it (`names_differ_iff`).
-/

namespace Chanos.Netif

open Lib List NetifType EthIf
variable {box : Bool}

def dot : UInt8 := 46

def slash : UInt8 := 47

def underscore : UInt8 := 95

def portText (sep : UInt8) (first : ℕ) (others : List ℕ) (sub_port : ℕ) : List UInt8 :=
  numbersText first (others.map (sep, ·) ++ if sub_port = 1 then [] else [(dot, sub_port)])

section

variable (box : Bool) (netif_index : UInt32)

def npdNetifEthGetChassis : ℕ :=
  if box then slot.get netif_index else chassis.get netif_index

def npdNetifEthGetSlot : ℕ :=
  if box then subSlot.get netif_index else slot.get netif_index

def modularNumbers : List ℕ :=
  if box then [subSlot.get netif_index, port.get netif_index + 1]
  else if subSlot.get netif_index ≠ 0 then
    [slot.get netif_index + 1, subSlot.get netif_index, port.get netif_index + 1]
  else [slot.get netif_index + 1, port.get netif_index + 1]

def modularText (sep : UInt8) : List UInt8 :=
  portText sep (npdNetifEthGetChassis box netif_index + 1) (modularNumbers box netif_index)
    (reserved.get netif_index + 1)

def userText : List UInt8 :=
  portText slash (npdNetifEthGetChassis box netif_index + 1)
    [if box then subSlot.get netif_index else npdNetifEthGetSlot box netif_index + 1,
      port.get netif_index + 1]
    (reserved.get netif_index + 1)

def parseEthIndexToName : Option (List UInt8) :=
  if ifType.get netif_index = eth.code then some (modularText box netif_index slash)
  else none

end

def ethWord : List UInt8 := [101, 116, 104]

def vlanWord : List UInt8 := [118, 108, 97, 110]

def lagWord : List UInt8 := [108, 97, 103]

def tunnelWord : List UInt8 := [116, 117, 110, 110, 101, 108]

def upperVlanWord : List UInt8 := [86, 76, 65, 78]

def pChannelWord : List UInt8 := [112, 45, 99, 104, 97, 110, 110, 101, 108]

def ethernetWord : List UInt8 := [101, 116, 104, 101, 114, 110, 101, 116, 32]

def portChannelWord : List UInt8 := [112, 111, 114, 116, 45, 99, 104, 97, 110, 110, 101, 108, 32]

section

/- The name of a wireless interface is looked up in a file, and that of any other interface is its
index in hexadecimal. -/
variable (wifi hex : UInt32 → List UInt8) (box : Bool) (netif_index : UInt32)

def npdNetifIndexToUserFullname : Option (List UInt8) :=
  if npdNetifTypeGet netif_index = eth.code then
    some (ethernetWord ++ userText box netif_index)
  else if npdNetifTypeGet netif_index = trunk.code then
    some (portChannelWord ++ decimal (npdNetifTrunkGetTid netif_index))
  else if npdNetifTypeGet netif_index = vlan.code then
    some (vlanWord ++ [32] ++ decimal (npdNetifVlanGetVid netif_index))
  else if npdNetifTypeGet netif_index = wireless.code then some (wifi netif_index)
  else if npdNetifTypeGet netif_index = tunnel.code then
    some (tunnelWord ++ [32] ++ decimal (npdNetifTunnelGetTunnelid netif_index))
  else some (hex netif_index)

def npdNetifIndexToName : Option (List UInt8) :=
  if npdNetifTypeGet netif_index = eth.code then
    some (ethWord ++ modularText box netif_index underscore)
  else if npdNetifTypeGet netif_index = vlan.code then
    some (vlanWord ++ paddedDecimal 4 (npdNetifVlanGetVid netif_index))
  else if npdNetifTypeGet netif_index = trunk.code then
    some (lagWord ++ paddedDecimal 3 (npdNetifTrunkGetTid netif_index))
  else if npdNetifTypeGet netif_index = wireless.code then
    npdNetifIndexToUserFullname wifi hex box netif_index
  else if npdNetifTypeGet netif_index = tunnel.code then
    some (tunnelWord ++ paddedDecimal 3 (npdNetifTunnelGetTunnelid netif_index))
  else none

def npdNetifIndexToUserName : Option (List UInt8) :=
  if npdNetifTypeGet netif_index = eth.code then
    some (ethWord ++ userText box netif_index)
  else if npdNetifTypeGet netif_index = trunk.code then
    some (pChannelWord ++ decimal (npdNetifTrunkGetTid netif_index))
  else if npdNetifTypeGet netif_index = vlan.code then
    some (upperVlanWord ++ paddedDecimal 4 (npdNetifVlanGetVid netif_index))
  else if npdNetifTypeGet netif_index = wireless.code then
    npdNetifIndexToUserFullname wifi hex box netif_index
  else if npdNetifTypeGet netif_index = tunnel.code then
    some (tunnelWord ++ paddedDecimal 3 (npdNetifTunnelGetTunnelid netif_index))
  else none

def npdNetifIndexToL3intfName : Option (List UInt8) :=
  if npdNetifTypeGet netif_index = eth.code then
    -- the board of a box system is counted from zero
    let slot := npdNetifEthGetSlot box netif_index + 1
    some (ethWord ++ portText slash (npdNetifEthGetChassis box netif_index + 1)
      [if box then slot - 1 else slot, port.get netif_index + 1]
      (reserved.get netif_index + 1))
  else if npdNetifTypeGet netif_index = vlan.code then
    some (vlanWord ++ [32] ++ decimal (npdNetifVlanGetVid netif_index))
  else if npdNetifTypeGet netif_index = trunk.code then
    some (lagWord ++ paddedDecimal 3 (npdNetifTrunkGetTid netif_index))
  else if npdNetifTypeGet netif_index = tunnel.code then
    some (tunnelWord ++ paddedDecimal 3 (npdNetifTunnelGetTunnelid netif_index))
  else none

end

inductive NameFunction
  | name
  | userName
  | userFullname
  | l3intfName
  deriving DecidableEq

def NameFunction.print (wifi hex : UInt32 → List UInt8) (box : Bool) (netif_index : UInt32) :
    NameFunction → Option (List UInt8)
  | .name => npdNetifIndexToName wifi hex box netif_index
  | .userName => npdNetifIndexToUserName wifi hex box netif_index
  | .userFullname => npdNetifIndexToUserFullname wifi hex box netif_index
  | .l3intfName => npdNetifIndexToL3intfName box netif_index

theorem portText_inj {sep : UInt8} (hd : isDigit sep = false) (hdo : sep ≠ dot) {n n' : ℕ}
    {ms ms' : List ℕ} {q q' : ℕ} (h : portText sep n ms q = portText sep n' ms' q') :
    n = n' ∧ ms = ms' ∧ q = q' := by
  have hnd : ∀ (ms : List ℕ) (q : ℕ),
      ∀ p ∈ ms.map (sep, ·) ++ (if q = 1 then [] else [(dot, q)]), isDigit p.1 = false := by
    intro ms q p hp
    rcases mem_append.mp hp with hp | hp
    · obtain ⟨m, -, rfl⟩ := mem_map.mp hp
      exact hd
    · split_ifs at hp
      · exact absurd hp not_mem_nil
      · rw [mem_singleton.mp hp]
        rfl
  obtain ⟨hn, hrs⟩ := numbersText_inj (hnd ms q) (hnd ms' q') h
  -- the sub-port is the only number behind a dot
  have ho : ∀ (ms : List ℕ) (q : ℕ),
      (ms.map (sep, ·) ++ if q = 1 then [] else [(dot, q)]).filterMap
        (fun p => if p.1 = dot then none else some p.2) = ms := by
    intro ms q
    rw [filterMap_append, filterMap_map]
    have hno : (if q = 1 then [] else [(dot, q)]).filterMap
        (fun p : UInt8 × ℕ => if p.1 = dot then none else some p.2) = [] := by
      split_ifs <;> rfl
    rw [hno, append_nil]
    refine (filterMap_congr fun m _ => if_neg hdo).trans ?_
    exact filterMap_some
  have hms : ms = ms' := by rw [← ho ms q, hrs, ho ms' q']
  subst hms
  refine ⟨hn, rfl, ?_⟩
  have hsu := append_cancel_left hrs
  by_cases hq : q = 1
  · by_cases hq' : q' = 1
    · rw [hq, hq']
    · rw [if_pos hq, if_neg hq'] at hsu
      exact absurd hsu.symm (cons_ne_nil _ _)
  · by_cases hq' : q' = 1
    · rw [if_neg hq, if_pos hq'] at hsu
      exact absurd hsu (cons_ne_nil _ _)
    · rw [if_neg hq, if_neg hq'] at hsu
      exact congrArg Prod.snd (cons.inj hsu).1

/-! ## The name of an interface -/

def Interface.type : Interface → NetifType
  | .eth .. => .eth
  | .trunk _ => .trunk
  | .vlan _ => .vlan
  | .tunnel _ => .tunnel
  | .wireless .. => .wireless

open Interface

/-- An Ethernet port, trunk, VLAN or tunnel whose numbers fit the fields of an index. -/
def Interface.IsNamed (box : Bool) : Interface → Prop
  | .eth chassis slot sub_slot port sub_port =>
    (box = true → chassis = 0) ∧ chassis < 4 ∧ slot < 16 ∧ sub_slot < 4 ∧ port < 64 ∧
      sub_port < 16384
  | .trunk tid => tid < 4096
  | .vlan vid => vid < 4096
  | .tunnel tunnel_id => tunnel_id < 1024
  | .wireless .. => False

instance (box : Bool) : DecidablePred (IsNamed box)
  | .eth .. => inferInstanceAs (Decidable (_ ∧ _))
  | .trunk _ => inferInstanceAs (Decidable (_ < _))
  | .vlan _ => inferInstanceAs (Decidable (_ < _))
  | .tunnel _ => inferInstanceAs (Decidable (_ < _))
  | .wireless .. => inferInstanceAs (Decidable False)

def NameFunction.word : NameFunction → NetifType → List UInt8
  | .name, .eth => ethWord
  | .name, .vlan => vlanWord
  | .name, .trunk => lagWord
  | .userName, .eth => ethWord
  | .userName, .vlan => upperVlanWord
  | .userName, .trunk => pChannelWord
  | .userFullname, .eth => ethernetWord
  | .userFullname, .vlan => vlanWord ++ [32]
  | .userFullname, .trunk => portChannelWord
  | .userFullname, .tunnel => tunnelWord ++ [32]
  | .l3intfName, .eth => ethWord
  | .l3intfName, .vlan => vlanWord ++ [32]
  | .l3intfName, .trunk => lagWord
  | _, _ => tunnelWord

def NameFunction.width : NameFunction → NetifType → ℕ
  | .userFullname, _ => 0
  | .name, .vlan => 4
  | .userName, .vlan => 4
  | .userName, .trunk => 0
  | .l3intfName, .vlan => 0
  | _, _ => 3

def unitOf (box : Bool) (chassis slot : ℕ) : ℕ := if box then slot else chassis

def withModule (box : Bool) (slot sub_slot port : ℕ) : List ℕ :=
  if box then [sub_slot, port + 1]
  else if sub_slot ≠ 0 then [slot + 1, sub_slot, port + 1]
  else [slot + 1, port + 1]

def withoutModule (box : Bool) (slot sub_slot port : ℕ) : List ℕ :=
  [if box then sub_slot else slot + 1, port + 1]

def NameFunction.numbers (box : Bool) (f : NameFunction) : Interface → List UInt8
  | .eth chassis slot sub_slot port sub_port =>
    if f = .name then
      portText underscore (unitOf box chassis slot + 1) (withModule box slot sub_slot port)
        (sub_port + 1)
    else
      portText slash (unitOf box chassis slot + 1) (withoutModule box slot sub_slot port)
        (sub_port + 1)
  | .trunk tid => paddedDecimal (f.width .trunk) tid
  | .vlan vid => paddedDecimal (f.width .vlan) vid
  | .tunnel tunnel_id => paddedDecimal (f.width .tunnel) tunnel_id
  | .wireless .. => []

theorem typeGet_ifindex (i : Interface) : npdNetifTypeGet i.ifindex = i.type.code := by
  cases i with
  | eth => exact ifType_ethIfindex _ _ _ _ _
  | trunk => exact ifType_trunk _
  | vlan => exact ifType_vlan _
  | tunnel => exact ifType_tunnel _
  | wireless => exact ifType_wireless _ _ _

theorem paddedDecimal_zero (n : ℕ) : paddedDecimal 0 n = decimal n := by
  rw [paddedDecimal, Nat.zero_sub]
  rfl

open NameFunction

theorem print_ifindex (wifi hex : UInt32 → List UInt8) {i : Interface}
    (h : i.IsNamed box) (f : NameFunction) :
    f.print wifi hex box i.ifindex = some (f.word i.type ++ f.numbers box i) := by
  have ht := typeGet_ifindex i
  cases i with
  | eth c s m p q =>
    obtain ⟨-, hc, hs, hm, hp, hq⟩ := h
    obtain ⟨hc, hs, hm, hp, hq⟩ := get_ethIfindex hc hs hm hp hq
    rw [ifindex] at ht ⊢
    cases f <;> cases box <;>
      simp only [print, npdNetifIndexToName, npdNetifIndexToUserName,
        npdNetifIndexToUserFullname, npdNetifIndexToL3intfName, ht, type, if_true,
        modularText, modularNumbers, userText, npdNetifEthGetChassis, npdNetifEthGetSlot, hc, hs, hm,
        hp, hq, word, numbers, unitOf, withModule, withoutModule,
        Bool.false_eq_true, reduceCtorEq, if_false, Nat.add_sub_cancel]
  | trunk n | vlan n | tunnel n =>
    simp only [ifindex, npdNetifTrunkGetIndex, npdNetifVlanGetIndex, npdNetifTunnelGetIndex]
      at ht ⊢
    cases f <;>
      simp (disch := decide) only [print, npdNetifIndexToName, npdNetifIndexToUserName,
        npdNetifIndexToUserFullname, npdNetifIndexToL3intfName, ht, type, if_pos, if_neg,
        npdNetifTrunkGetTid, npdNetifVlanGetVid, npdNetifTunnelGetTunnelid, word, numbers, width,
        paddedDecimal_zero] <;>
      rw [BitField.get_set_of_lt] <;> exact h
  | wireless w r b => exact h.elim

def DifferInModule (i j : Interface) : Prop :=
  ∃ chassis slot port sub_port m m', i = .eth chassis slot m port sub_port ∧
    j = .eth chassis slot m' port sub_port

theorem word_inj (f : NameFunction) {t t' : NetifType}
    (ht : t ∈ [NetifType.eth, .trunk, .vlan, .tunnel])
    (ht' : t' ∈ [NetifType.eth, .trunk, .vlan, .tunnel]) {x y : List UInt8}
    (h : f.word t ++ x = f.word t' ++ y) : t = t' := by
  have hlr : ([NetifType.eth, .trunk, .vlan, .tunnel].map fun t => (f.word t).head?).Nodup := by
    cases f <;> decide
  have hne : ∀ t, f.word t ≠ [] := by
    intro t
    cases f <;> cases t <;> exact cons_ne_nil _ _
  refine inj_on_of_nodup_map hlr ht ht' ?_
  calc (f.word t).head? = (f.word t ++ x).head? := (head?_append_of_ne_nil _ (hne t)).symm
    _ = (f.word t' ++ y).head? := by rw [h]
    _ = (f.word t').head? := head?_append_of_ne_nil _ (hne t')

section

variable {c c' s s' m m' p p' : ℕ} (hc : box = true → c = 0) (hc' : box = true → c' = 0)
  (hu : unitOf box c s + 1 = unitOf box c' s' + 1)
include hc hc' hu

theorem withModule_inj
    (h : withModule box s m p = withModule box s' m' p') : c = c' ∧ s = s' ∧ m = m' ∧ p = p' := by
  cases box with
  | true =>
    obtain ⟨hm, hp⟩ := cons.inj h
    have hp : p + 1 = p' + 1 := (cons.inj hp).1
    have hs : s + 1 = s' + 1 := hu
    have hz := hc rfl
    have hz' := hc' rfl
    omega
  | false =>
    have hcc : c + 1 = c' + 1 := hu
    simp only [withModule, Bool.false_eq_true, if_false] at h
    -- a port on a module has one number more than a port on the board
    split_ifs at h with hm hm' hm'
    · simp only [cons.injEq] at h
      omega
    · simp only [cons.injEq, reduceCtorEq, and_false] at h
    · simp only [cons.injEq, reduceCtorEq, and_false] at h
    · simp only [cons.injEq] at h
      omega

theorem withoutModule_inj
    (h : withoutModule box s m p = withoutModule box s' m' p') :
    c = c' ∧ s = s' ∧ p = p' ∧ (box = true → m = m') := by
  cases box with
  | true =>
    obtain ⟨hcc, hs, hm, hp⟩ := withModule_inj hc hc' hu h
    exact ⟨hcc, hs, hp, fun _ => hm⟩
  | false =>
    have hcc : c + 1 = c' + 1 := hu
    simp only [withoutModule, Bool.false_eq_true, if_false, cons.injEq] at h
    exact ⟨by omega, by omega, by omega, fun h => absurd h Bool.false_ne_true⟩

end

theorem numbers_eq_iff {i j : Interface} (hi : i.IsNamed box) (hj : j.IsNamed box)
    (ht : i.type = j.type) (f : NameFunction) :
    f.numbers box i = f.numbers box j ↔ i = j ∨ (f ≠ .name ∧ box = false ∧ DifferInModule i j) := by
  have hp : ∀ {w n n' : ℕ}, paddedDecimal w n = paddedDecimal w n' → n = n' := by
    intro w n n' h
    rw [← decimalValue_paddedDecimal w n, h, decimalValue_paddedDecimal]
  constructor
  · intro h
    cases i with
    | eth c s m p q =>
      cases j with
      | eth c' s' m' p' q' =>
        by_cases hf : f = .name
        · rw [numbers, numbers, if_pos hf, if_pos hf] at h
          obtain ⟨hu, hrs, hq⟩ := portText_inj (by decide) (by decide) h
          obtain ⟨rfl, rfl, rfl, rfl⟩ := withModule_inj hi.1 hj.1 hu hrs
          obtain rfl : q = q' := Nat.succ.inj hq
          exact Or.inl rfl
        · rw [numbers, numbers, if_neg hf, if_neg hf] at h
          obtain ⟨hu, hrs, hq⟩ := portText_inj (by decide) (by decide) h
          obtain ⟨rfl, rfl, rfl, hm⟩ := withoutModule_inj hi.1 hj.1 hu hrs
          obtain rfl : q = q' := Nat.succ.inj hq
          cases box with
          | true => exact Or.inl (by rw [hm rfl])
          | false => exact Or.inr ⟨hf, rfl, c, s, p, q, m, m', rfl, rfl⟩
      | _ => cases ht
    | trunk t =>
      cases j with
      | trunk t' => exact Or.inl (congrArg trunk (hp h))
      | _ => cases ht
    | vlan v =>
      cases j with
      | vlan v' => exact Or.inl (congrArg vlan (hp h))
      | _ => cases ht
    | tunnel n =>
      cases j with
      | tunnel n' => exact Or.inl (congrArg tunnel (hp h))
      | _ => cases ht
    | wireless w r b => exact hi.elim
  · rintro (rfl | ⟨hf, rfl, c, s, p, q, m, m', rfl, rfl⟩)
    · rfl
    · rw [numbers, numbers, if_neg hf, if_neg hf]
      rfl

theorem Interface.IsNamed.type_mem {i : Interface} (h : i.IsNamed box) :
    i.type ∈ [NetifType.eth, .trunk, .vlan, .tunnel] := by
  cases i with
  | eth c s m p q | trunk t | vlan v | tunnel n => exact mem_of_elem_eq_true rfl
  | wireless w r b => exact h.elim

/-- **When two interfaces have different names.** -/
theorem names_differ_iff (wifi hex : UInt32 → List UInt8) {box : Bool} {i j : Interface}
    (hi : i.IsNamed box) (hj : j.IsNamed box) (hne : i.ifindex ≠ j.ifindex) (f : NameFunction) :
    f.print wifi hex box i.ifindex ≠ f.print wifi hex box j.ifindex ↔
      ¬(f ≠ .name ∧ box = false ∧ DifferInModule i j) := by
  refine not_congr ?_
  rw [print_ifindex wifi hex hi f, print_ifindex wifi hex hj f, Option.some_inj]
  have hdiff : i ≠ j := fun h => hne (congrArg ifindex h)
  constructor
  · intro h
    have htype : i.type = j.type := word_inj f hi.type_mem hj.type_mem h
    rw [htype] at h
    exact ((numbers_eq_iff hi hj htype f).mp (append_cancel_left h)).resolve_left hdiff
  · intro h
    have htype : i.type = j.type := by
      obtain ⟨-, -, c, s, p, q, m, m', rfl, rfl⟩ := h
      rfl
    rw [htype, (numbers_eq_iff hi hj htype f).mpr (Or.inr h)]

def moduleOne : Interface := .eth 0 0 1 0 0

def moduleTwo : Interface := .eth 0 0 2 0 0

/-- The theorem about a port and a VLAN. -/
theorem names_differ_port_vlan : moduleOne.IsNamed true ∧ (vlan 5).IsNamed true ∧
    moduleOne.ifindex ≠ (vlan 5).ifindex ∧
    NameFunction.userName.print (fun _ => []) (fun _ => []) true moduleOne.ifindex ≠
      NameFunction.userName.print (fun _ => []) (fun _ => []) true (vlan 5).ifindex := by
  have hone : moduleOne.IsNamed true := by decide
  have hvlan : (vlan 5).IsNamed true := by decide
  have hne : moduleOne.ifindex ≠ (vlan 5).ifindex := by decide
  refine ⟨hone, hvlan, hne, (names_differ_iff _ _ hone hvlan hne .userName).mpr ?_⟩
  rintro ⟨-, hbox, -⟩
  exact Bool.false_ne_true hbox.symm

/-- On a chassis system, two ports on different modules of a board have the same name for the user:
both are `eth1/1/1`, `ethernet 1/1/1` in full. -/
theorem modules_share_name : moduleOne.IsNamed false ∧ moduleTwo.IsNamed false ∧
    moduleOne.ifindex ≠ moduleTwo.ifindex ∧
    npdNetifIndexToUserName (fun _ => []) (fun _ => []) false moduleOne.ifindex =
      some [101, 116, 104, 49, 47, 49, 47, 49] ∧
    npdNetifIndexToUserName (fun _ => []) (fun _ => []) false moduleTwo.ifindex =
      some [101, 116, 104, 49, 47, 49, 47, 49] := by
  decide

end Chanos.Netif

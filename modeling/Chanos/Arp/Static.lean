import Chanos.Arp.Snooping

/-!
# Static ARP entries

Packets and the aging thread do not delete or rewrite static entries. A packet from the address of a
static entry is compared with it by the indexes, so it is refused for another MAC address or port,
and accepted for another VLAN alone.
-/

namespace Chanos.Arp

open Lib Dhcp ArpState OrderedTable

variable {p : ArpProduct}

structure ArpItem.Configured (x : ArpItem) : Prop where
  static : x.isStatic = 1
  wired : npdIfindexType x.ifIndex ≠ npdNetifWirelessType

def ArpEvent.IsTraffic : ArpEvent → Prop
  | .rxPacket _ _ => True
  | .dropCheck _ _ _ _ => True
  | .txHook _ _ _ _ => True
  | .sync _ _ => True
  | _ => False

section

variable {env : ArpEnv} {now timeout : UInt32} {tbl : ArpTable p} {x item : ArpItem}

/-! ## Learning -/

theorem learning_of_configured (h : OneOwner tbl) (hx : x ∈ tbl.items) (hc : x.Configured)
    (hip : item.ipAddr = x.ipAddr) :
    npdArpSnoopingLearning env now timeout tbl item =
      (tbl, if item.ifIndex = x.ifIndex ∧ item.mac = x.mac then .success else .error) := by
  unfold npdArpSnoopingLearning
  dsimp only
  generalize hit' : (if (env.l3intf_ifindex item.l3Index).any (·.up) then item
    else { item with isValid := 0 }) = item'
  have hke : item'.key = item.key := by
    rw [← hit']
    split_ifs <;> rfl
  have hip' : item'.ipAddr = x.ipAddr := (congrArg ArpKey.ipAddr hke).trans hip
  have hf : npdArpSnoopingFindItemByip tbl item'.ipAddr = some x := by
    cases hf : npdArpSnoopingFindItemByip tbl item'.ipAddr with
    | none => exact absurd hip'.symm (findItemByip_eq_none_iff.mp hf x hx)
    | some dupItem =>
      obtain ⟨hdu, hd⟩ := mem_of_findItemByip hf
      rw [h.eq hdu hx (hd.trans hip')]
  have hcmp : npdArpSnoopingCompare item' x = true ↔ item.ifIndex = x.ifIndex ∧ item.mac = x.mac := by
    rw [compare_iff, hke]
    rw [ArpKey.mk.injEq]
    exact ⟨fun h => ⟨h.1, h.2.1⟩, fun h => ⟨h.1, h.2, hip⟩⟩
  rw [hf]
  dsimp only
  rw [if_neg (not_not.mpr hc.static), if_neg hc.wired]
  by_cases hsm : npdArpSnoopingCompare item' x = true
  · rw [hsm, if_pos (hcmp.mp hsm)]
    rfl
  · rw [Bool.eq_false_of_not_eq_true hsm, if_neg fun h => hsm (hcmp.mpr h)]
    rfl

section

variable (hstat : x.isStatic = 1) (hx : x ∈ tbl.items) (hip : x.ipAddr ≠ item.ipAddr)
include hstat hx hip

theorem mem_learningInsert (l3intf_bind status : Bool) :
    x ∈ (learningInsert now timeout tbl item l3intf_bind status).1.items := by
  refine learningInsert_rule (P := fun tbl => x ∈ tbl.items) status fun tbl₁ htbl => ?_
  have hx₁ : x ∈ tbl₁.items := by
    rcases htbl with rfl | rfl
    · exact hx
    · exact mem_dropHandle (ArpItem.aged_of_static hstat) hx
  exact ⟨hx₁, fun _ => mem_insert_of_ne hx₁ fun hke => hip (congrArg ArpKey.ipAddr hke)⟩

theorem mem_learning_of_ne : x ∈ (npdArpSnoopingLearning env now timeout tbl item).1.items := by
  -- An entry with the address of `item` is another one, so whatever is done with it leaves `x` alone.
  have hke {dupItem : ArpItem} (hd : dupItem.ipAddr = item.ipAddr) : x.key ≠ dupItem.key :=
    fun hke => hip ((congrArg ArpKey.ipAddr hke).trans hd)
  refine learning_rule (P := fun tbl => x ∈ tbl.items) hx (fun item' l3intf_bind hip' _ => ?_)
    (fun item' l3intf_bind dupItem hip' _ hd => ?_)
    fun dupItem hd => mem_update.mpr (.inl ⟨hx, hke hd⟩)
  · exact mem_learningInsert hstat hx (hip'.symm ▸ hip) l3intf_bind false
  · exact mem_learningInsert hstat (mem_erase.mpr ⟨hx, hke hd⟩) (hip'.symm ▸ hip)
      l3intf_bind true

end

theorem mem_learning (h : OneOwner tbl) (hx : x ∈ tbl.items) (hc : x.Configured) (item : ArpItem) :
    x ∈ (npdArpSnoopingLearning env now timeout tbl item).1.items := by
  by_cases hip : item.ipAddr = x.ipAddr
  · rw [learning_of_configured h hx hc hip]
    exact hx
  · exact mem_learning_of_ne hc.static hx (Ne.symm hip)

end

/-! ## Runs -/

section

variable {s : ArpState p} {x : ArpItem}

section

variable (h : OneOwner s.tbl) (hx : x ∈ s.tbl.items) (hc : x.Configured)
include h hx hc

theorem mem_step {e : ArpEvent}
    (he : e.IsTraffic) : x ∈ (s.step e).tbl.items := by
  cases e with
  | rxPacket env r => exact npdArpPacketRxProcess_rule (P := (x ∈ ·.items)) hx (mem_learning h hx hc) r
  | dropCheck env dbItem netif_index dip =>
    exact snoopDropCheck_rule (P := (x ∈ ·.items)) hx (mem_learning h hx hc) dbItem netif_index dip
  | txHook env opCode l3intf dip =>
    exact packetTxHookArp_rule (P := (x ∈ ·.items)) hx (mem_learning h hx hc) _ opCode l3intf dip
  | sync isMasterActive routes =>
    have hne : x.isStatic ≠ 0 := by rw [hc.static]; decide
    exact mem_sync (ArpItem.aged_of_static hc.static) (ArpItem.visited_of_static hne) hx
      isMasterActive
  | _ => exact absurd he id

theorem mem_run
    {events : List ArpEvent} (hev : ∀ e ∈ events, e.IsTraffic) : x ∈ (s.run events).tbl.items := by
  induction events generalizing s with
  | nil => exact hx
  | cons e events ih =>
    have he : e.IsTraffic := hev e List.mem_cons_self
    exact ih (h.step e) (mem_step h hx hc he) fun e' he' => hev e' (List.mem_cons_of_mem e he')

end

end

/-- Static entries resist spoofing. In every state that is reached, a configured entry outlasts
every run of packets and turns of the aging thread, with all its fields. A packet from its address
leaves the table as it is, and is refused exactly when its MAC address or its port is another one.
-/
theorem configured_resists (before events : List ArpEvent) {x : ArpItem}
    (hx : x ∈ ((init p).run before).tbl.items) (hconf : x.Configured)
    (hevents : ∀ e ∈ events, e.IsTraffic) :
    x ∈ (((init p).run before).run events).tbl.items ∧
      ∀ (env : ArpEnv) (now timeout : UInt32) (item : ArpItem), item.ipAddr = x.ipAddr →
        npdArpSnoopingLearning env now timeout (((init p).run before).run events).tbl item =
          ((((init p).run before).run events).tbl,
            if item.ifIndex = x.ifIndex ∧ item.mac = x.mac then .success else .error) := by
  have hbefore : OneOwner ((init p).run before).tbl := (oneOwner_init p).run before
  have hkept := mem_run hbefore hx hconf hevents
  exact ⟨hkept, fun env now timeout item hip =>
    learning_of_configured (hbefore.run events) hkept hconf hip⟩

def fourEntries : ArpProduct := ⟨4, true, .little, false⟩

def quietArpEnv : ArpEnv where
  l3intf_ifindex _ := none
  npd_intf_netif_get_by_ip _ := false
  npd_intf_gindex_exist_check _ := none
  l3intf_up _ := false
  netif_up _ := false
  npd_netif_vlan_get_vid _ := 0

def printerArp : StaticArp where
  L3ifindex := 7
  ipAddr := 0x0A00000A
  mac := .six 2 0 0 0 0 1
  vid := 10
  eth_g_index := 0x20000001
  isTagged := 0
  status := 1
  kern_created := true

theorem items_printerArp :
    ((init fourEntries).run [.staticArp printerArp]).tbl.items = [printerArp.arpItem] := by
  rfl

theorem configured_printerArp : printerArp.arpItem.Configured := ⟨rfl, by decide⟩

def spoofedPrinter : ArpItem := { printerArp.arpItem with isStatic := 0, ifIndex := 0x20000002 }

/-- It outlasts a turn of the aging thread, and refuses its address to another port. -/
theorem configured_resists_printer :
    printerArp.arpItem ∈ (((init fourEntries).run [.staticArp printerArp]).run
        [.sync true []]).tbl.items ∧
      npdArpSnoopingLearning quietArpEnv 5 600
          (((init fourEntries).run [.staticArp printerArp]).run [.sync true []]).tbl
          spoofedPrinter =
        ((((init fourEntries).run [.staticArp printerArp]).run [.sync true []]).tbl,
          .error) := by
  have hx : printerArp.arpItem ∈
      ((init fourEntries).run [.staticArp printerArp]).tbl.items := by
    rw [items_printerArp]
    exact List.mem_singleton_self _
  have hevents : ∀ e ∈ [ArpEvent.sync true []], e.IsTraffic := by
    intro e he
    rw [List.mem_singleton.mp he]
    trivial
  obtain ⟨hkept, hlearn⟩ := configured_resists [.staticArp printerArp] [.sync true []] hx
    configured_printerArp hevents
  have hport : ¬ (spoofedPrinter.ifIndex = printerArp.arpItem.ifIndex ∧
      spoofedPrinter.mac = printerArp.arpItem.mac) := fun h => absurd h.1 (by decide)
  have hrefused := hlearn quietArpEnv 5 600 spoofedPrinter rfl
  rw [if_neg hport] at hrefused
  exact ⟨hkept, hrefused⟩

/-- A packet that contradicts a static entry in its VLAN alone is accepted: learning returns
success. -/
theorem configured_vlan_ignored :
    ∃ (p : ArpProduct) (before : List ArpEvent) (x item : ArpItem),
      x ∈ ((init p).run before).tbl.items ∧ x.Configured ∧ item.ipAddr = x.ipAddr ∧
        item.vid ≠ x.vid ∧
        (npdArpSnoopingLearning quietArpEnv 5 600 ((init p).run before).tbl item).2 =
          .success := by
  refine ⟨fourEntries, [.staticArp printerArp], printerArp.arpItem,
    { printerArp.arpItem with isStatic := 0, vid := 20 }, ?_, configured_printerArp, rfl, by decide, ?_⟩
  · rw [items_printerArp]
    exact List.mem_singleton_self _
  · rfl

end Chanos.Arp

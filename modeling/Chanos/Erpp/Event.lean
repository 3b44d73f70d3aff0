import Chanos.Erpp.Domain

/-!
# Link events

`erpp_app_event_linkup` and `erpp_app_event_linkdown` run through all domains and through the rings
with ids 1 to 3 of each (`linkupDomain`, `linkdownDomain`): their loop stops before
`ERPP_RING_SIZE`, so the fourth ring never hears of its links. In each ring that has the port they
branch on the states of the two ring ports.
-/

namespace Chanos.Erpp

open Lib List Function ErppRun

namespace ErppRing

variable (r : ErppRing)

def IsMaster : Prop := r.node.erpp_node_role = .master

instance (r : ErppRing) : Decidable r.IsMaster :=
  inferInstanceAs (Decidable (r.node.erpp_node_role = .master))

def ports : PortStatus × PortStatus :=
  (r.node.port0.erpp_port_status, r.node.port1.erpp_port_status)

def withPorts (s0 s1 : PortStatus) : ErppRing :=
  { r with node := { r.node with
      port0 := { r.node.port0 with erpp_port_status := s0 }
      port1 := { r.node.port1 with erpp_port_status := s1 } } }

def withStatus (status : ℕ) : ErppRing :=
  { r with node := { r.node with erpp_node_status := status } }

def Hears (netif : ℕ) : Prop :=
  r.is_enable = true ∧ (netif = r.node.port0.netif_index ∨ netif = r.node.port1.netif_index)

instance (r : ErppRing) (netif : ℕ) : Decidable (r.Hears netif) :=
  inferInstanceAs (Decidable (_ ∧ _))

def linkup (netif : ℕ) : ErppRing :=
  if r.Hears netif then
    match r.ports with
    | (.block, .block) =>
      if r.IsMaster then
        if netif = r.node.port0.netif_index then r.withPorts .forwarding .block
        else r.withPorts .block .forwarding
      else r.withStatus preForwarding
    | (.forwarding, .block) =>
      if netif = r.node.port1.netif_index ∧ ¬ r.IsMaster then r.withStatus preForwarding else r
    | (.block, .forwarding) =>
      if netif = r.node.port0.netif_index then
        if r.IsMaster then r.withPorts .forwarding .block else r.withStatus preForwarding
      else r
    | (.forwarding, .forwarding) =>
      if r.IsMaster then r.withPorts .forwarding .block
      else (r.withStatus preForwarding).withPorts .block .block
  else r

end ErppRing

/-- A packet that a ring sends when it loses a link: its type, the port, and whether the ring is
stored in the domain (`packet_ring`) before the packet is built. -/
structure Announcement where
  packet_type : ℕ
  netif_index : ℕ
  names_ring : Bool
  deriving DecidableEq

namespace ErppRing

def linkdown (r : ErppRing) (netif : ℕ) : ErppRing × Option Announcement :=
  let if0 := r.node.port0.netif_index
  let if1 := r.node.port1.netif_index
  if r.Hears netif then
    match r.ports with
    | (.forwarding, .block) =>
      if netif = if0 then
        if r.IsMaster then (r.withPorts .block .forwarding, some ⟨commonFlushPacket, if1, true⟩)
        else (r.withPorts .block .block, some ⟨linkDown, if1, true⟩)
      else if r.IsMaster then (r, none)
      else (r, some ⟨linkDown, if0, false⟩)
    | (.block, .forwarding) =>
      if netif = if1 then
        if r.IsMaster then (r.withPorts .block .block, some ⟨commonFlushPacket, if0, true⟩)
        else ((r.withPorts .block .block).withStatus linkDown, some ⟨linkDownPacket, if0, true⟩)
      else (r, none)
    | (.forwarding, .forwarding) =>
      if netif = if0 then
        if r.IsMaster then (r.withPorts .block .forwarding, some ⟨commonFlushPacket, if1, true⟩)
        else
          ((r.withPorts .block .forwarding).withStatus linkDown, some ⟨linkDownPacket, if1, true⟩)
      else
        if r.IsMaster then (r.withPorts .forwarding .block, some ⟨commonFlushPacket, if0, true⟩)
        else
          ((r.withPorts .forwarding .block).withStatus linkDown, some ⟨linkDownPacket, if0, true⟩)
    | (.block, .block) => (r, none)
  else (r, none)

end ErppRing

def eventRings : List (Fin 4) := [0, 1, 2]

def linkupRing (netif : ℕ) (d : ErppDomain) (k : Fin 4) : ErppDomain :=
  { d with ring := Function.update d.ring k ((d.ring k).linkup netif) }

def linkupDomain (netif : ℕ) (d : ErppDomain) : ErppDomain := eventRings.foldl (linkupRing netif) d

variable (host : Daemon)

def announce (k : Fin 4) (announcement : Option Announcement) (s : ErppRun) : ErppRun :=
  match announcement with
  | none => s
  | some a =>
    let entry := if a.names_ring then { s.entry with packet_ring := (k : ℤ) + 1 } else s.entry
    { s with entry := entry }.erppTxTypePacket host (k + 1) a.packet_type a.netif_index

def linkdownRing (netif : ℕ) (s : ErppRun) (k : Fin 4) : ErppRun :=
  let after := (s.entry.ring k).linkdown netif
  announce host k after.2
    { s with entry := { s.entry with ring := Function.update s.entry.ring k after.1 } }

def linkdownDomain (netif : ℕ) (d : ErppDomain) : ErppRun :=
  eventRings.foldl (linkdownRing host netif) (ErppRun.start d)

def erppAppEventLinkdown (netif : ℕ) (tbl : List ErppDomain) : List ErppRun :=
  tbl.map (linkdownDomain host netif)

theorem foldl_ring {S : Type} (ring : S → Fin 4 → ErppRing) {step : S → Fin 4 → S}
    {g : ErppRing → ErppRing} (h : ∀ s k, ring (step s k) = update (ring s) k (g (ring s k)))
    {l : List (Fin 4)} (hl : l.Nodup) (s : S) (k : Fin 4) :
    ring (l.foldl step s) k = if k ∈ l then g (ring s k) else ring s k := by
  induction l generalizing s with
  | nil => rfl
  | cons i l ih =>
    have hn := (nodup_cons.mp hl).1
    rw [foldl_cons, ih (nodup_cons.mp hl).2, h]
    by_cases hk : k = i
    · subst hk
      rw [if_neg hn, if_pos mem_cons_self, update_self]
    · rw [update_of_ne hk]
      simp only [mem_cons, hk, false_or]

theorem mem_eventRings {k : Fin 4} : k ∈ eventRings ↔ k ≠ 3 := by decide +revert

theorem nodup_eventRings : eventRings.Nodup := by decide

theorem linkupDomain_ring (netif : ℕ) (d : ErppDomain) (k : Fin 4) :
    (linkupDomain netif d).ring k = if k ≠ 3 then (d.ring k).linkup netif else d.ring k := by
  unfold linkupDomain
  rw [foldl_ring ErppDomain.ring (g := (·.linkup netif)) (fun _ _ => rfl) nodup_eventRings]
  simp only [mem_eventRings]

namespace ErppRing

variable (r : ErppRing) (netif : ℕ)

def Quiet : Prop :=
  r.Hears netif →
    match r.ports with
    | (.block, .block) => True
    | (.block, .forwarding) => netif ≠ r.node.port1.netif_index
    | (.forwarding, .block) => netif ≠ r.node.port0.netif_index ∧ r.IsMaster
    | (.forwarding, .forwarding) => False

variable {r netif}

theorem linkdown_of_quiet (h : r.Quiet netif) : r.linkdown netif = (r, none) := by
  unfold linkdown
  by_cases hh : r.Hears netif
  · have hst := h hh
    rw [if_pos hh]
    revert hst
    rcases r.ports with ⟨_ | _, _ | _⟩ <;> intro hst
    · exact hst.elim
    · rw [if_neg hst.1, if_pos hst.2]
    · exact if_neg hst
    · rfl
  · exact if_neg hh

theorem ne_of_ports_ne {r' : ErppRing} (h : r'.ports ≠ r.ports) : r' ≠ r :=
  fun heq => h (congrArg ports heq)

theorem linkdown_of_not_quiet (h : ¬ r.Quiet netif) :
    ∃ a, (r.linkdown netif).2 = some a ∧
      (a.packet_type % 2 ^ 8 = linkDownPacket → (r.linkdown netif).1 ≠ r) := by
  obtain ⟨hh, hst⟩ := Classical.not_imp.mp h
  unfold linkdown
  rw [if_pos hh]
  rcases hp : r.ports with ⟨_ | _, _ | _⟩ <;> rw [hp] at hst <;> dsimp only at hst ⊢
  · -- both ports were open: one is closed in every branch
    split <;> split <;> refine ⟨_, rfl, fun _ => ne_of_ports_ne ?_⟩ <;> rw [hp] <;>
      simp [ports, withPorts, withStatus]
  · split
    · split
      · exact ⟨_, rfl, nofun⟩
      · exact ⟨_, rfl, nofun⟩
    · next hpt =>
      have hms : ¬ r.IsMaster := fun hms => hst ⟨hpt, hms⟩
      rw [if_neg hms]
      exact ⟨_, rfl, nofun⟩
  · rw [if_pos (not_not.mp hst)]
    split <;> refine ⟨_, rfl, fun _ => ne_of_ports_ne ?_⟩ <;> rw [hp] <;>
      simp [ports, withPorts, withStatus]
  · exact absurd trivial hst

end ErppRing

/-! ## What a lost link does to the rings of a domain -/

variable {netif : ℕ} {s : ErppRun} {k j : Fin 4} {l : List (Fin 4)}

theorem announce_ring (a : Option Announcement) :
    (announce host k a s).entry.ring = s.entry.ring := by
  cases a with
  | none => rfl
  | some a =>
    cases hn : a.names_ring <;>
      simp [announce, hn, erppTxTypePacket, touch]

theorem linkdownRing_ring (netif : ℕ) (s : ErppRun) (k : Fin 4) :
    (linkdownRing host netif s k).entry.ring =
      update s.entry.ring k ((s.entry.ring k).linkdown netif).1 :=
  announce_ring host _

def sentTypes (sent : List (ℕ × ErppPacket)) : List ℕ := sent.map (·.2.erpp_type)

def ErppRing.announcedTypes (r : ErppRing) (netif : ℕ) : List ℕ :=
  (r.linkdown netif).2.toList.map (·.packet_type % 2 ^ 8)

open ErppRing

theorem linkdownRing_sentTypes (netif : ℕ) (s : ErppRun) (k : Fin 4) :
    sentTypes (linkdownRing host netif s k).sent =
      sentTypes s.sent ++ (s.entry.ring k).announcedTypes netif := by
  unfold linkdownRing announcedTypes
  dsimp only
  cases ((s.entry.ring k).linkdown netif).2 with
  | none => exact (append_nil _).symm
  | some a => simp [announce, sentTypes, erppTxTypePacket, touch, erppAssemblyPacket]

theorem linkdownRing_of_quiet (h : (s.entry.ring k).Quiet netif) :
    linkdownRing host netif s k = s := by
  unfold linkdownRing
  rw [linkdown_of_quiet h]
  dsimp only [announce]
  rw [update_eq_self]

theorem foldl_linkdownRing_of_quiet (h : ∀ j ∈ l, (s.entry.ring j).Quiet netif) :
    l.foldl (linkdownRing host netif) s = s := by
  induction l with
  | nil => rfl
  | cons j l ih =>
    rw [foldl_cons, linkdownRing_of_quiet host (h j mem_cons_self)]
    exact ih fun i hi => h i (mem_cons_of_mem j hi)

theorem foldl_linkdownRing_sentTypes (hl : l.Nodup) :
    sentTypes (l.foldl (linkdownRing host netif) s).sent =
      sentTypes s.sent ++ l.flatMap fun j => (s.entry.ring j).announcedTypes netif := by
  induction l generalizing s with
  | nil => exact (append_nil _).symm
  | cons i l ih =>
    have hn := (nodup_cons.mp hl).1
    have hrs : ∀ j ∈ l, (linkdownRing host netif s i).entry.ring j = s.entry.ring j := by
      intro j hj
      rw [linkdownRing_ring, update_of_ne (ne_of_mem_of_not_mem hj hn)]
    rw [foldl_cons, ih (nodup_cons.mp hl).2, linkdownRing_sentTypes, flatMap_cons, append_assoc]
    congr 2
    exact flatMap_congr fun j hj => by rw [hrs j hj]

variable {d : ErppDomain}

theorem linkdownDomain_ring (netif : ℕ) (d : ErppDomain) (k : Fin 4) :
    (linkdownDomain host netif d).entry.ring k =
      if k ≠ 3 then ((d.ring k).linkdown netif).1 else d.ring k := by
  unfold linkdownDomain
  rw [foldl_ring (fun s : ErppRun => s.entry.ring) (g := fun r => (r.linkdown netif).1)
    (linkdownRing_ring host netif) nodup_eventRings]
  simp only [mem_eventRings]
  rfl

theorem linkdownDomain_of_quiet (h : ∀ j, j ≠ 3 → (d.ring j).Quiet netif) :
    linkdownDomain host netif d = start d :=
  foldl_linkdownRing_of_quiet host fun j hj => h j (mem_eventRings.mp hj)

theorem linkdownDomain_of_others_quiet (hk : k ≠ 3)
    (h : ∀ j, j ≠ 3 → j ≠ k → (d.ring j).Quiet netif) :
    linkdownDomain host netif d = linkdownRing host netif (start d) k := by
  obtain ⟨l₁, l₂, hsp⟩ := append_of_mem (mem_eventRings.mpr hk)
  have hn : (l₁ ++ k :: l₂).Nodup := hsp ▸ nodup_eventRings
  have hf : ∀ j ∈ l₁, j ≠ 3 ∧ j ≠ k := fun j hj =>
    ⟨mem_eventRings.mp (hsp ▸ mem_append_left _ hj), fun hjk =>
      (nodup_append.mp hn).2.2 j hj k mem_cons_self hjk⟩
  have hla : ∀ j ∈ l₂, j ≠ 3 ∧ j ≠ k := fun j hj =>
    ⟨mem_eventRings.mp (hsp ▸ mem_append_right _ (mem_cons_of_mem k hj)), fun hjk =>
      (nodup_cons.mp (nodup_append.mp hn).2.1).1 (hjk ▸ hj)⟩
  unfold linkdownDomain
  rw [hsp, foldl_append, foldl_cons,
    foldl_linkdownRing_of_quiet host fun j hj => h j (hf j hj).1 (hf j hj).2]
  refine foldl_linkdownRing_of_quiet host fun j hj => ?_
  rw [linkdownRing_ring, update_of_ne (hla j hj).2]
  exact h j (hla j hj).1 (hla j hj).2

/-! ## The announcement of a failure -/

def ErppNode.port (n : ErppNode) (p : Fin 2) : ErppPort := if p = 0 then n.port0 else n.port1

/-- The failure of port `p` of the ring with index `k` of the domain `d` is announced: the port is
closed, the node has lost a link, the one packet it sends says so through the other port, and no
other ring has changed. -/
structure FailureAnnounced (netif : ℕ) (pre : List ErppDomain) (d : ErppDomain)
    (post : List ErppDomain) (k : Fin 4) (p : Fin 2) : Prop where
  closed : (((linkdownDomain host netif d).entry.ring k).node.port p).erpp_port_status = .block
  status : ((linkdownDomain host netif d).entry.ring k).node.erpp_node_status = linkDown
  packet : ∃ pkt : ErppPacket,
    (erppAppEventLinkdown host netif (pre ++ d :: post)).flatMap ErppRun.sent =
      [(((d.ring k).node.port p.rev).netif_index, pkt)] ∧
    pkt.erpp_type = linkDownPacket ∧ pkt.ring_id = (d.ring k).ring_id % 2 ^ 16 ∧
    pkt.domain_id = d.domain_id % 2 ^ 16
  rings : ∀ j, j ≠ k → (linkdownDomain host netif d).entry.ring j = d.ring j
  domains : ∀ e ∈ pre ++ post, (linkdownDomain host netif e).entry.ring = e.ring

def ErppRing.AnnouncingPorts (r : ErppRing) (netif : ℕ) (p : Fin 2) : Prop :=
  r.ports = (.block, .forwarding) ∧ netif = r.node.port1.netif_index ∨
    r.ports = (.forwarding, .forwarding) ∧ (p = 0 ∨ netif ≠ r.node.port0.netif_index)

def OthersQuiet (netif : ℕ) (pre : List ErppDomain) (d : ErppDomain) (post : List ErppDomain)
    (k : Fin 4) : Prop :=
  (∀ j, j ≠ 3 → j ≠ k → (d.ring j).Quiet netif) ∧
    ∀ e ∈ pre ++ post, ∀ j, j ≠ 3 → (e.ring j).Quiet netif

section

variable {pre post : List ErppDomain} {p : Fin 2} {r : ErppRing}

theorem ErppRing.linkdown_of_announcing (hms : ¬ r.IsMaster) (he : r.is_enable = true)
    (hpt : netif = (r.node.port p).netif_index) (h : r.AnnouncingPorts netif p) :
    ((r.linkdown netif).1.node.port p).erpp_port_status = .block ∧
      (r.linkdown netif).1.node.erpp_node_status = linkDown ∧
      (r.linkdown netif).1.ring_id = r.ring_id ∧
      (r.linkdown netif).2 = some ⟨linkDownPacket, (r.node.port p.rev).netif_index, true⟩ := by
  have hh : r.Hears netif := by
    refine ⟨he, ?_⟩
    unfold ErppNode.port at hpt
    split at hpt
    · exact .inl hpt
    · exact .inr hpt
  unfold linkdown
  rw [if_pos hh]
  rcases h with ⟨hps, hsn⟩ | ⟨hps, hf⟩
  · rw [hps]
    dsimp only
    rw [if_pos hsn, if_neg hms]
    -- a primary that has failed too is the same interface as the secondary
    fin_cases p
    · have hsm : r.node.port0.netif_index = r.node.port1.netif_index := hpt.symm.trans hsn
      exact ⟨rfl, rfl, rfl, by simp [ErppNode.port, hsm]⟩
    · exact ⟨rfl, rfl, rfl, rfl⟩
  · rw [hps]
    dsimp only
    fin_cases p
    · have hp : netif = r.node.port0.netif_index := hpt
      rw [if_pos hp, if_neg hms]
      exact ⟨rfl, rfl, rfl, rfl⟩
    · rw [if_neg (hf.resolve_left (by decide)), if_neg hms]
      exact ⟨rfl, rfl, rfl, rfl⟩

theorem ErppRing.announcing_of_linkdown (hms : ¬ r.IsMaster)
    (hcl : ((r.linkdown netif).1.node.port p).erpp_port_status = .block)
    (ht : r.announcedTypes netif = [linkDownPacket]) : r.AnnouncingPorts netif p := by
  unfold announcedTypes at ht
  unfold linkdown at hcl ht
  by_cases hh : r.Hears netif
  swap
  · simp [if_neg hh] at ht
  rw [if_pos hh] at hcl ht
  unfold AnnouncingPorts
  rcases hps : r.ports with ⟨_ | _, _ | _⟩ <;> rw [hps] at hcl ht <;>
    dsimp only at hcl ht
  · refine .inr ⟨rfl, ?_⟩
    by_contra hc
    obtain ⟨hp, hf⟩ := not_or.mp hc
    rw [if_pos (not_not.mp hf), if_neg hms] at hcl
    simp [ErppNode.port, hp, withPorts, withStatus] at hcl
  · split_ifs at ht <;> simp [linkDown, linkDownPacket] at ht
  · refine .inl ⟨rfl, ?_⟩
    by_contra hc
    rw [if_neg hc] at ht
    cases ht
  · cases ht

theorem sentTypes_linkdown (netif : ℕ) (tbl : List ErppDomain) :
    sentTypes ((erppAppEventLinkdown host netif tbl).flatMap sent) =
      tbl.flatMap fun e => eventRings.flatMap fun j => (e.ring j).announcedTypes netif := by
  unfold erppAppEventLinkdown sentTypes
  rw [flatMap_map, map_flatMap]
  refine flatMap_congr fun e _ => ?_
  exact foldl_linkdownRing_sentTypes host nodup_eventRings

theorem FailureAnnounced.othersQuiet (h : FailureAnnounced host netif pre d post k p) :
    OthersQuiet netif pre d post k := by
  obtain ⟨pkt, hse, hty, -, -⟩ := h.packet
  -- all packets of the node have the type of an announced failure
  have ha : ∀ e ∈ pre ++ d :: post, ∀ j, j ≠ 3 → ∀ t ∈ (e.ring j).announcedTypes netif,
      t = linkDownPacket := by
    intro e he j hj t ht
    have htp := sentTypes_linkdown host netif (pre ++ d :: post)
    rw [hse] at htp
    have hme : t ∈ sentTypes [(((d.ring k).node.port p.rev).netif_index, pkt)] := by
      rw [htp]
      exact mem_flatMap.mpr ⟨e, he, mem_flatMap.mpr ⟨j, mem_eventRings.mpr hj, ht⟩⟩
    exact (mem_singleton.mp hme).trans hty
  -- so a ring that is not quiet has changed
  have hq : ∀ e ∈ pre ++ d :: post, ∀ j, j ≠ 3 →
      (linkdownDomain host netif e).entry.ring j = e.ring j → (e.ring j).Quiet netif := by
    intro e he j hj hsm
    by_contra hlo
    obtain ⟨a, hso, hc⟩ := linkdown_of_not_quiet hlo
    have hme : a.packet_type % 2 ^ 8 ∈ (e.ring j).announcedTypes netif := by
      unfold announcedTypes
      rw [hso]
      exact mem_singleton_self _
    have hr : (linkdownDomain host netif e).entry.ring j = ((e.ring j).linkdown netif).1 :=
      (linkdownDomain_ring host netif e j).trans (if_pos hj)
    exact hc (ha e he j hj _ hme) (hr.symm.trans hsm)
  refine ⟨fun j hj hjk => ?_, fun e he j hj => ?_⟩
  · exact hq d (mem_append_right _ mem_cons_self) j hj (h.rings j hjk)
  have hme : e ∈ pre ++ d :: post := by
    rcases mem_append.mp he with hpr | hp
    · exact mem_append_left _ hpr
    · exact mem_append_right _ (mem_cons_of_mem d hp)
  exact hq e hme j hj (congrFun (h.domains e he) j)

theorem sent_of_othersQuiet (h : OthersQuiet netif pre d post k) :
    (erppAppEventLinkdown host netif (pre ++ d :: post)).flatMap sent =
      (linkdownDomain host netif d).sent := by
  have hno : ∀ l : List ErppDomain, (∀ e ∈ l, e ∈ pre ++ post) →
      (l.map (linkdownDomain host netif)).flatMap sent = [] := by
    intro l hl
    rw [flatMap_map]
    refine flatMap_eq_nil_iff.mpr fun e he => ?_
    rw [linkdownDomain_of_quiet host (h.2 e (hl e he))]
    rfl
  unfold erppAppEventLinkdown
  rw [map_append, map_cons, flatMap_append, flatMap_cons,
    hno pre fun e he => mem_append_left _ he,
    hno post fun e he => mem_append_right _ he, nil_append, append_nil]

/-- The failure of a ring port of a node that is not the master is announced exactly if the ring is
one of the first three of its domain, its ports are in a state with the announcement, and no other
ring of the node is touched by the failure. -/
theorem failureAnnounced_iff (hmaster : ¬ (d.ring k).IsMaster)
    (henable : (d.ring k).is_enable = true) (hport : netif = ((d.ring k).node.port p).netif_index) :
    FailureAnnounced host netif pre d post k p ↔
      k ≠ 3 ∧ (d.ring k).AnnouncingPorts netif p ∧ OthersQuiet netif pre d post k := by
  constructor
  · intro h
    have hquiet := h.othersQuiet
    obtain ⟨pkt, hsent, htype, -, -⟩ := h.packet
    rw [sent_of_othersQuiet host hquiet] at hsent
    -- the fourth ring does not even hear of the failure
    have hk : k ≠ 3 := by
      rintro rfl
      rw [linkdownDomain_of_quiet host fun j hj => hquiet.1 j hj hj] at hsent
      cases hsent
    have hrun := linkdownDomain_of_others_quiet host hk hquiet.1
    have hclosed := h.closed
    rw [hrun, linkdownRing_ring, update_self] at hclosed
    have htypes := linkdownRing_sentTypes host netif (start d) k
    rw [← hrun, hsent] at htypes
    refine ⟨hk, announcing_of_linkdown hmaster hclosed ?_, hquiet⟩
    calc (d.ring k).announcedTypes netif = [pkt.erpp_type] := htypes.symm
      _ = [linkDownPacket] := by rw [htype]
  · rintro ⟨hk, hports, hquiet⟩
    have hrun := linkdownDomain_of_others_quiet host hk hquiet.1
    obtain ⟨hclosed, hstatus, hid, hpacket⟩ :=
      linkdown_of_announcing hmaster henable hport hports
    have hring := linkdownRing_ring host netif (start d) k
    refine ⟨?_, ?_, ?_, ?_, ?_⟩
    · rw [hrun, hring, update_self]
      exact hclosed
    · rw [hrun, hring, update_self]
      exact hstatus
    · rw [sent_of_othersQuiet host hquiet, hrun]
      unfold linkdownRing
      dsimp only [start]
      rw [hpacket]
      refine ⟨_, rfl, rfl, ?_, rfl⟩
      -- the builder finds the ring by the index that was stored just before
      simp [erppAssemblyPacket, touch, ErppDomain.ringAt, hid]
    · intro j hj
      rw [hrun, hring, update_of_ne hj]
      rfl
    · intro e he
      rw [linkdownDomain_of_quiet host (hquiet.2 e he)]
      rfl

def transitDomain (s0 s1 : PortStatus) : ErppDomain :=
  let ring : ErppRing := ⟨1, 1, true, ⟨.transmit, linkUp, ⟨1, s0⟩, ⟨2, s1⟩⟩⟩
  { newDomain 1 with ring := Function.update (fun _ => clearedRing) 0 ring }

def zeroDaemon : Daemon := ⟨Bytes.zero 6, fun _ => clearedRing⟩

/-- The failure of the primary port of a transit node with both ports open is announced. -/
theorem failureAnnounced_bothOpen :
    FailureAnnounced zeroDaemon 1 [] (transitDomain .forwarding .forwarding) [] 0 0 := by
  have hmaster : ¬ ((transitDomain .forwarding .forwarding).ring 0).IsMaster := by decide
  have hquiet : OthersQuiet 1 [] (transitDomain .forwarding .forwarding) [] 0 := by
    refine ⟨fun j _ hj hhears => ?_, fun e he => absurd he not_mem_nil⟩
    have hring : (transitDomain .forwarding .forwarding).ring j = clearedRing := by
      simp [transitDomain, hj]
    rw [hring] at hhears
    exact absurd hhears.1 (by decide)
  exact (failureAnnounced_iff zeroDaemon hmaster rfl rfl).mpr
    ⟨by decide, .inr ⟨rfl, .inl rfl⟩, hquiet⟩

/-- The failure of the primary port of a transit node whose secondary is closed is not: the node
does not even take the status. -/
theorem secondaryClosed_unannounced :
    (¬ ((transitDomain .forwarding .block).ring 0).IsMaster ∧
      ((transitDomain .forwarding .block).ring 0).Hears 1) ∧
      ¬ FailureAnnounced zeroDaemon 1 [] (transitDomain .forwarding .block) [] 0 0 := by
  refine ⟨by decide, fun h => ?_⟩
  exact absurd h.status (by decide)

end

end Chanos.Erpp

import Chanos.Lib.Trace
import Mathlib.Algebra.Order.Ring.Nat
import Mathlib.Data.Finset.Card
import Mathlib.Data.List.Chain
import Mathlib.Data.Prod.Lex
import Mathlib.Data.List.FinRange

/-!
# The master port and the link state of a trunk

`npd_trunk_master_check` looks for the port with the highest priority, by its link, its duplex, its
speed and its number, and is called on most of the events of the ports. It is not called when the last
port that was up goes down (`follows_step_iff`).
-/

namespace Chanos.Trunk

open Lib

inductive EthSpeed
  | s10M | s100M | s1000M | s10G | s12G | s2500M | s5G | s40G | s100G | other

def EthSpeed.rank : EthSpeed → ℕ
  | .s10M => 1
  | .s100M => 2
  | .s1000M => 3
  | .s10G => 4
  | .s12G => 5
  | .s2500M => 6
  | .s5G => 7
  | .s40G => 8
  | .s100G => 9
  | .other => 0

/-- The fields of `attr_bitmap` that the priority is made of. -/
structure PortAttr where
  link : Bool
  full_duplex : Bool
  speed : EthSpeed

/-- The records of the ports, a trunk, and the events that were raised for it, latest first. -/
structure TrunkState (n : ℕ) where
  attr : Fin n → PortAttr
  ports : Finset (Fin n) := ∅
  linkstate : Bool := false
  master_port_index : Option (Fin n) := none
  raised : List Bool := []

open TrunkState

section

variable {n : ℕ} (s : TrunkState n)

def priority (p : Fin n) : ℕ :=
  let a := s.attr p
  ((((if a.link then 1 <<< 30 else 0) ||| (if a.full_duplex then 1 <<< 29 else 0)) |||
    (a.speed.rank <<< 15)) + (4096 - p))

def bestOf (ports : List (Fin n)) : Option (Fin n) × ℕ :=
  ports.foldl (fun best p => if priority s p > best.2 then (some p, priority s p) else best) (none, 0)

def npdTrunkMasterCheck : TrunkState n :=
  match (bestOf s ((List.finRange n).filter (· ∈ s.ports))).1 with
  | some p => if p ∈ s.ports then { s with master_port_index := some p } else s
  | none => s

def TrunkState.turn (up : Bool) : TrunkState n :=
  if s.linkstate = up then s else { s with linkstate := up, raised := up :: s.raised }

def TrunkState.otherUp (p : Fin n) : Bool := ∃ q ∈ s.ports, q ≠ p ∧ (s.attr q).link = true

end

/-- What happens to the trunk and to the ports, with the attributes that a port comes up with. -/
inductive TrunkEvent (n : ℕ)
  | portAdd (p : Fin n)
  | portDel (p : Fin n)
  | linkUp (p : Fin n) (full_duplex : Bool) (speed : EthSpeed)
  | linkDown (p : Fin n)

section

variable {n : ℕ}

def TrunkState.setAttr (s : TrunkState n) (p : Fin n) (a : PortAttr) : TrunkState n :=
  { s with attr := Function.update s.attr p a }

/-- `npd_trunk_handle_port_event` and `npd_trunk_handle_port_relate_event`, after the record of the
port was changed. -/
def TrunkState.step (s : TrunkState n) : TrunkEvent n → Option (TrunkState n)
  | .portAdd p =>
    if p ∈ s.ports then some s
    else
      let s := npdTrunkMasterCheck { s with ports := insert p s.ports }
      some (if (s.attr p).link then s.turn true else s)
  | .portDel p => if p ∈ s.ports then none else some s
  | .linkUp p full_duplex speed =>
    let s := s.setAttr p ⟨true, full_duplex, speed⟩
    some (if p ∈ s.ports then (npdTrunkMasterCheck s).turn true else s)
  | .linkDown p =>
    let s := s.setAttr p { s.attr p with link := false }
    some (if p ∈ s.ports ∧ s.linkstate then
      if s.otherUp p then if s.master_port_index = some p then npdTrunkMasterCheck s else s
      else s.turn false
    else s)

/-- What a port is compared by: its link, its duplex, the rank of its speed, and its number
downwards. -/
def TrunkState.key (s : TrunkState n) (p : Fin n) : Bool ×ₗ Bool ×ₗ ℕ ×ₗ (Fin n)ᵒᵈ :=
  toLex ((s.attr p).link, toLex ((s.attr p).full_duplex,
    toLex ((s.attr p).speed.rank, OrderDual.toDual p)))

def TrunkState.RightMaster (s : TrunkState n) : Prop :=
  match s.master_port_index with
  | some p => p ∈ s.ports ∧ ∀ q ∈ s.ports, s.key q ≤ s.key p
  | none => s.ports = ∅

/-- The link state and the master follow the members, and the events the link state. -/
structure TrunkState.Follows (s : TrunkState n) : Prop where
  linkstate : s.linkstate = true ↔ ∃ p ∈ s.ports, (s.attr p).link = true
  master : s.RightMaster
  alternate : s.raised.IsChain (· ≠ ·)
  last : s.linkstate = s.raised.head?.getD false

/-- No member is deleted, and a master that goes down with all the ports down is still the greatest.
-/
def TrunkEvent.Fits (s : TrunkState n) : TrunkEvent n → Prop
  | .portDel p => p ∉ s.ports
  | .linkDown p =>
    let t := s.setAttr p { s.attr p with link := false }
    s.master_port_index = some p → t.otherUp p = false → ∀ q ∈ s.ports, t.key q ≤ t.key p
  | _ => True

end

section

variable {n : ℕ} {s : TrunkState n} {p q : Fin n}

theorem priority_eq (s : TrunkState n) (p : Fin n) :
    priority s p = (s.attr p).link.toNat * 2 ^ 30 + (s.attr p).full_duplex.toNat * 2 ^ 29 +
      (s.attr p).speed.rank * 2 ^ 15 + (4096 - p) := by
  unfold priority
  dsimp only
  cases (s.attr p).link <;> cases (s.attr p).full_duplex <;> cases (s.attr p).speed <;> rfl

theorem rank_le (speed : EthSpeed) : speed.rank ≤ 9 := by
  cases speed <;> decide

theorem priority_pos (hn : n ≤ 4096) (s : TrunkState n) (p : Fin n) : 0 < priority s p := by
  rw [priority_eq]
  omega

theorem priority_le_iff (hn : n ≤ 4096) : priority s q ≤ priority s p ↔ s.key q ≤ s.key p := by
  have hq := rank_le (s.attr q).speed
  have hp := rank_le (s.attr p).speed
  have hb : ¬true < false := by decide
  rw [priority_eq, priority_eq]
  unfold key
  simp only [Prod.Lex.toLex_le_toLex, OrderDual.toDual_le_toDual, Fin.le_def]
  cases (s.attr q).link <;> cases (s.attr p).link <;> cases (s.attr q).full_duplex <;>
    cases (s.attr p).full_duplex <;> simp [hb] <;> omega

theorem bestOf_spec (s : TrunkState n) (l : List (Fin n)) : ∀ best : Option (Fin n) × ℕ,
    let r := l.foldl (fun best p => if priority s p > best.2 then (some p, priority s p) else best) best
    (r = best ∨ ∃ p ∈ l, r = (some p, priority s p)) ∧ best.2 ≤ r.2 ∧ ∀ q ∈ l, priority s q ≤ r.2 := by
  induction l with
  | nil => simp
  | cons p l ih =>
    intro best
    obtain ⟨hf, hle, ha⟩ := ih (if priority s p > best.2 then (some p, priority s p) else best)
    split at hf <;> simp_all <;> grind

theorem masterCheck_of_nonempty (hn : n ≤ 4096) (hne : s.ports.Nonempty) :
    ∃ p, npdTrunkMasterCheck s = { s with master_port_index := some p } ∧ p ∈ s.ports ∧
      ∀ q ∈ s.ports, s.key q ≤ s.key p := by
  obtain ⟨hf, -, ha⟩ := bestOf_spec s ((List.finRange n).filter (· ∈ s.ports)) (none, 0)
  obtain ⟨q, hq⟩ := hne
  have hpo := priority_pos hn s q
  have hb := ha q (by simpa using hq)
  rcases hf with hno | ⟨p, hp, hso⟩
  · rw [hno] at hb
    omega
  have hme : p ∈ s.ports := by simpa using hp
  refine ⟨p, by simp [npdTrunkMasterCheck, bestOf, hso, hme], hme, fun q' hq' => ?_⟩
  have hle := ha q' (by simpa using hq')
  rw [hso] at hle
  exact (priority_le_iff hn).mp hle

theorem follows_turn {up : Bool} (hlk : up = true ↔ ∃ p ∈ s.ports, (s.attr p).link = true)
    (hms : s.RightMaster) (ha : s.raised.IsChain (· ≠ ·))
    (hla : s.linkstate = s.raised.head?.getD false) : (s.turn up).Follows := by
  unfold turn
  split
  · exact ⟨by simp_all, hms, ha, hla⟩
  rename_i hne
  refine ⟨hlk, hms, ?_, rfl⟩
  cases hr : s.raised with
  | nil => exact .singleton up
  | cons a l =>
    rw [hr] at ha hla
    exact .cons_cons (fun heq => hne (hla.trans heq.symm)) ha

namespace TrunkState

theorem Follows.portAdd (hn : n ≤ 4096) (h : s.Follows) (hp : p ∉ s.ports) :
    ∃ t, s.step (.portAdd p) = some t ∧ t.Follows := by
  obtain ⟨m, hc, hm, hb⟩ := masterCheck_of_nonempty hn
    (s := { s with ports := insert p s.ports }) (Finset.insert_nonempty p s.ports)
  have hlk := h.linkstate
  refine ⟨_, by simp [step, hp]; rfl, ?_⟩
  rw [hc]
  split
  · exact follows_turn (by simp_all) ⟨hm, hb⟩ h.alternate h.last
  · exact ⟨by simp_all, ⟨hm, hb⟩, h.alternate, h.last⟩

theorem Follows.linkUp (hn : n ≤ 4096) (h : s.Follows) (full_duplex : Bool) (speed : EthSpeed)
    (hp : p ∈ s.ports) : ∃ t, s.step (.linkUp p full_duplex speed) = some t ∧ t.Follows := by
  obtain ⟨m, hc, hm, hb⟩ := masterCheck_of_nonempty hn
    (s := s.setAttr p ⟨true, full_duplex, speed⟩) ⟨p, hp⟩
  refine ⟨_, congrArg some (if_pos hp), ?_⟩
  rw [hc]
  refine follows_turn ?_ ⟨hm, hb⟩ h.alternate h.last
  exact iff_of_true rfl ⟨p, hp, by simp [setAttr]⟩

theorem Follows.setAttr (h : s.Follows) (hp : p ∉ s.ports) (a : PortAttr) :
    (s.setAttr p a).Follows := by
  have ha : ∀ q ∈ s.ports, (s.setAttr p a).attr q = s.attr q := fun q hq => by
    have hne : q ≠ p := fun heq => hp (heq ▸ hq)
    simp [TrunkState.setAttr, hne]
  have hke : ∀ q ∈ s.ports, (s.setAttr p a).key q = s.key q := fun q hq => by
    simp only [key, ha q hq]
  refine ⟨h.linkstate.trans (exists_congr fun q => and_congr_right fun hq => by rw [ha q hq]), ?_,
    h.alternate, h.last⟩
  have hms := h.master
  unfold RightMaster at hms ⊢
  change match s.master_port_index with
    | some m => m ∈ s.ports ∧ ∀ q ∈ s.ports, _
    | none => s.ports = ∅
  split
  · rename_i m hm
    rw [hm] at hms
    exact ⟨hms.1, fun q hq => by rw [hke q hq, hke m hms.1]; exact hms.2 q hq⟩
  · simp_all

end TrunkState

end

def firstPort : Fin 2 := ⟨0, Nat.zero_lt_two⟩

end Chanos.Trunk

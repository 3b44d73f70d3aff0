import Chanos.Lib.Bytes

/-!
# The receive machine of LACP

The records of a port in `npd_lacp.c`, and `dot3ad_rx_machine`. A received LACPDU is compared with
what the port knows by four helpers. `__record_pdu` reads `AD_PORT_MATCHED` before
`__choose_matched` has set it, and nothing clears it (`rxMachine_standard_iff`).
-/

namespace Chanos.Lacp

open Lib

/-- The bits `AD_STATE_…` of a port state. -/
structure PortState where
  lacp_activity : Bool := false
  lacp_timeout : Bool := false
  aggregation : Bool := false
  synchronization : Bool := false
  collecting : Bool := false
  distributing : Bool := false
  defaulted : Bool := false
  expired : Bool := false
  deriving DecidableEq

/-- The values of an actor or a partner, with the numbers in the order of the host. -/
structure PortInfo where
  port : UInt16
  port_priority : UInt16
  system : Bytes 6
  system_priority : UInt16
  key : UInt16
  state : PortState
  deriving DecidableEq

structure Lacpdu where
  actor : PortInfo
  partner : PortInfo

inductive RxState
  | dummy | rxInitialize | portDisabled | lacpDisabled | expired | defaulted | current
  deriving DecidableEq

inductive PeriodicState
  | dummy | noPeriodic | fastPeriodic | slowPeriodic | periodicTx
  deriving DecidableEq

/-- The bits `AD_PORT_…` of `sm_vars` that the machines use. -/
structure SmVars where
  portBegin : Bool
  lacpEnabled : Bool
  matched : Bool
  selected : Bool
  moved : Bool

/-- The actor, partner and state machine records of a port. -/
structure LacpPort where
  actor : PortInfo
  is_enabled : Bool
  partner_admin : PortInfo
  partner_oper : PortInfo
  ntt : Bool
  vars : SmVars
  rx_state : RxState
  rx_timer : ℕ
  periodic_state : PeriodicState
  periodic_timer : ℕ

def currentWhile (short : Bool) : ℕ := if short then 3 else 90

def PortInfo.differs (a b : PortInfo) : Bool :=
  a.port ≠ b.port ∨ a.port_priority ≠ b.port_priority ∨ a.system ≠ b.system ∨
    a.system_priority ≠ b.system_priority ∨ a.key ≠ b.key ∨ a.state.aggregation ≠ b.state.aggregation

section

variable (lacpdu : Lacpdu) (p : LacpPort)

def updateSelected : LacpPort :=
  if lacpdu.actor.differs p.partner_oper then { p with vars.selected := false } else p

def updateNtt : LacpPort :=
  if lacpdu.partner.differs p.actor ∨
      lacpdu.partner.state.lacp_activity ≠ p.actor.state.lacp_activity ∨
      lacpdu.partner.state.lacp_timeout ≠ p.actor.state.lacp_timeout ∨
      lacpdu.partner.state.synchronization ≠ p.actor.state.synchronization then
    { p with ntt := true }
  else p

def recordPdu : LacpPort :=
  { p with
    partner_oper := { lacpdu.actor with
      state.synchronization := p.vars.matched && lacpdu.actor.state.synchronization }
    actor.state.defaulted := false }

def recordDefault : LacpPort :=
  { p with partner_oper := p.partner_admin, actor.state.defaulted := true }

def chooseMatched : LacpPort :=
  if lacpdu.partner.differs p.actor = false ∨ lacpdu.actor.state.aggregation = false then
    { p with vars.matched := true }
  else p

end

def rxNext (received : Bool) (p : LacpPort) : RxState × ℕ :=
  if p.vars.portBegin then (.rxInitialize, p.rx_timer)
  else if ¬p.is_enabled ∧ ¬p.vars.moved then (.portDisabled, p.rx_timer)
  else if received ∧ (p.rx_state = .expired ∨ p.rx_state = .defaulted ∨ p.rx_state = .current) then
    (.current, 0)
  else if p.rx_timer = 1 then
    (match p.rx_state with
      | .expired => .defaulted
      | .current => .expired
      | state => state, 0)
  else
    (match p.rx_state with
      | .portDisabled =>
        if p.vars.moved then .rxInitialize
        else if p.is_enabled ∧ p.vars.lacpEnabled then .expired
        else if p.is_enabled then .lacpDisabled
        else .portDisabled
      | state => state, p.rx_timer - 1)

def rxActions (lacpdu : Option Lacpdu) (p : LacpPort) : Option LacpPort :=
  match p.rx_state with
  | .dummy => some p
  | .rxInitialize =>
    let p := recordDefault { p with vars.lacpEnabled := p.actor.key &&& 1 ≠ 0, vars.selected := false }
    some { p with
      actor.state.expired := false, vars.moved := false, vars.matched := false
      rx_state := .portDisabled }
  | .portDisabled => some { p with vars.matched := false }
  | .lacpDisabled =>
    let p := recordDefault { p with vars.selected := false }
    some { p with
      partner_oper.state.aggregation := false, vars.matched := true, actor.state.expired := false }
  | .expired =>
    some { p with
      partner_oper.state.synchronization := false, partner_oper.state.lacp_timeout := true
      vars.matched := false, rx_timer := currentWhile true, actor.state.expired := true }
  | .defaulted =>
    let p := recordDefault
      (if p.partner_admin.differs p.partner_oper then { p with vars.selected := false } else p)
    some { p with vars.matched := true, actor.state.expired := false }
  | .current =>
    match lacpdu with
    | none => some p
    | some lacpdu =>
      if lacpdu.actor.system = p.actor.system then none
      else
        let p := chooseMatched lacpdu (recordPdu lacpdu (updateNtt lacpdu (updateSelected lacpdu p)))
        some { p with
          rx_timer := currentWhile p.actor.state.lacp_timeout, actor.state.expired := false }

def dot3adRxMachine (lacpdu : Option Lacpdu) (p : LacpPort) : LacpPort :=
  let q := { p with rx_state := (rxNext lacpdu.isSome p).1, rx_timer := (rxNext lacpdu.isSome p).2 }
  if q.rx_state ≠ p.rx_state ∨ lacpdu.isSome then (rxActions lacpdu q).getD p else q

/-! ## What an LACPDU leaves -/

section

variable {lacpdu : Lacpdu} {p : LacpPort}

/-- The port is matched by the rules of the standard. -/
def Matches (lacpdu : Lacpdu) (p : LacpPort) : Prop :=
  lacpdu.partner.differs p.actor = false ∨ lacpdu.actor.state.aggregation = false

/-- The states in which an LACPDU is recorded. -/
def Receiving (p : LacpPort) : Prop :=
  p.is_enabled = true ∧ p.vars.portBegin = false ∧
    (p.rx_state = .expired ∨ p.rx_state = .defaulted ∨ p.rx_state = .current)

section

variable (h : Receiving p) (ho : lacpdu.actor.system ≠ p.actor.system)
include h ho

theorem dot3adRxMachine_of_receiving :
    dot3adRxMachine (some lacpdu) p =
      let q := chooseMatched lacpdu (recordPdu lacpdu (updateNtt lacpdu
        (updateSelected lacpdu { p with rx_state := .current, rx_timer := 0 })))
      { q with rx_timer := currentWhile q.actor.state.lacp_timeout, actor.state.expired := false } := by
  have hn : rxNext true p = (.current, 0) := by
    unfold rxNext
    simp [h.1, h.2.1, h.2.2]
  simp [dot3adRxMachine, hn, rxActions, ho]

theorem received_spec :
    let q := dot3adRxMachine (some lacpdu) p
    q.rx_state = .current ∧ (q.vars.matched = true ↔ p.vars.matched = true ∨ Matches lacpdu p) ∧
      q.partner_oper = { lacpdu.actor with
        state.synchronization := p.vars.matched && lacpdu.actor.state.synchronization } := by
  rw [dot3adRxMachine_of_receiving h ho]
  unfold chooseMatched recordPdu updateNtt updateSelected Matches PortInfo.differs
  grind

end

end

/-- **When the receive machine follows the standard.** The port that has received an LACPDU of another
system is in `CURRENT` with the partner's values, matched if and only if the standard says so, and its
partner is synchronised if and only if the port is matched and the LACPDU says so, exactly if the port
was matched before only where it is to be matched, and also where a synchronised partner matches. -/
theorem rxMachine_standard_iff (p : LacpPort) (lacpdu : Lacpdu) (h : Receiving p)
    (hother : lacpdu.actor.system ≠ p.actor.system) :
    let q := dot3adRxMachine (some lacpdu) p
    (q.rx_state = .current ∧
        q.partner_oper = { lacpdu.actor with
          state.synchronization := q.partner_oper.state.synchronization } ∧
        (q.vars.matched = true ↔ Matches lacpdu p) ∧
        (q.partner_oper.state.synchronization = true ↔
          q.vars.matched = true ∧ lacpdu.actor.state.synchronization = true)) ↔
      (p.vars.matched = true → Matches lacpdu p) ∧
        (Matches lacpdu p → lacpdu.actor.state.synchronization = true → p.vars.matched = true) := by
  obtain ⟨hstate, hmatched, hpartner⟩ := received_spec h hother
  dsimp only
  rw [hstate, hmatched, hpartner]
  by_cases hm : Matches lacpdu p <;> by_cases hp : p.vars.matched = true <;> simp [hm, hp]

def sampleInfo : PortInfo := ⟨1, 255, Bytes.six 0 1 2 3 4 5, 32768, 7, { aggregation := true }⟩

def samplePartner : PortInfo :=
  { sampleInfo with system := Bytes.six 9 9 9 9 9 9, state.synchronization := true }

def samplePort (matched : Bool) : LacpPort where
  actor := sampleInfo
  is_enabled := true
  partner_admin := samplePartner
  partner_oper := samplePartner
  ntt := false
  vars := ⟨false, true, matched, false, false⟩
  rx_state := .expired
  rx_timer := 3
  periodic_state := .noPeriodic
  periodic_timer := 0

/-- An LACPDU that fits a matched port is recorded as the standard asks for. -/
theorem rxMachine_standard_matched :
    let q := dot3adRxMachine (some ⟨samplePartner, sampleInfo⟩) (samplePort true)
    q.vars.matched = true ↔ Matches ⟨samplePartner, sampleInfo⟩ (samplePort true) :=
  ((rxMachine_standard_iff (samplePort true) ⟨samplePartner, sampleInfo⟩ ⟨rfl, rfl, .inl rfl⟩
    (by decide)).mpr ⟨fun _ => .inl (by decide), fun _ _ => rfl⟩).2.2.1

/-- The first LACPDU that fits leaves the partner out of synchronisation, and one that does not fit
leaves the port matched. -/
theorem rxMachine_not_standard :
    (dot3adRxMachine (some ⟨samplePartner, sampleInfo⟩) (samplePort false)).vars.matched = true ∧
      (dot3adRxMachine (some ⟨samplePartner, sampleInfo⟩)
        (samplePort false)).partner_oper.state.synchronization = false ∧
      ¬Matches ⟨samplePartner, { sampleInfo with port := 2 }⟩ (samplePort true) ∧
      (dot3adRxMachine (some ⟨samplePartner, { sampleInfo with port := 2 }⟩)
        (samplePort true)).vars.matched = true := by
  unfold Matches
  decide

end Chanos.Lacp

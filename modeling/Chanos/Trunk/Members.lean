import Chanos.Lib.Trace
import Mathlib.Data.Finset.Option
import Mathlib.Data.Finset.Sort
import Mathlib.Data.UInt

/-!
# The members of the trunks

A trunk of `npd_trunk.c` has the set of its ports, and the record of a port the trunk that it is in.
`npd_trunk_port_add` changes both, around notifications whose handlers may change the records, and
reads them again after the handlers. `npd_trunk_port_del` reads the record of the port again into the
variable that points to it, and so over its own stack (`members_kept_iff`).
-/

namespace Chanos.Trunk

open Lib List Function Option Finset

/-- The record of a port; `rest` are the fields that the functions of the trunks only copy. -/
structure EthPort (ρ : Type) where
  trunkid : Option UInt16
  switch_port_index : Option ℕ
  isIpIntf : Bool
  rest : ρ

/-- The record of a trunk, with the array indexes of its ports. -/
structure TrunkRecord (τ : Type) where
  ports : Finset ℕ
  rest : τ

/-- The tables. The switch port of a port has the number of the port in its table. -/
structure TrunkDb (ρ τ : Type) where
  eth_ports : ℕ → Option (EthPort ρ)
  trunks : UInt16 → Option (TrunkRecord τ)
  switch_ports : Finset ℕ

open TrunkDb

/-- The handlers of a notification: they read the tables and change the other fields of the records. -/
structure Handlers (ρ τ : Type) where
  port : TrunkDb ρ τ → ℕ → ρ → ρ
  trunk : TrunkDb ρ τ → UInt16 → τ → τ

inductive TrunkReturnCode
  | errNone | badparam | trunkNotexists | portNotexists | portExists | membershipConfict | portL3Intfg
  | portMbrsFull | unsupport | errGeneral
  deriving DecidableEq

def maxPortPerTrunk : ℕ := 8

section

variable {ρ τ : Type} (db : TrunkDb ρ τ) (trunkId : UInt16) (eth_index : ℕ)

def TrunkDb.notify (h : Handlers ρ τ) : TrunkDb ρ τ :=
  { db with
    eth_ports := fun p => (db.eth_ports p).map fun e => { e with rest := h.port db p e.rest }
    trunks := fun id => (db.trunks id).map fun t => { t with rest := h.trunk db id t.rest } }

def TrunkDb.setPort (p : ℕ) (e : EthPort ρ) : TrunkDb ρ τ :=
  { db with eth_ports := update db.eth_ports p (some e) }

def TrunkDb.setTrunk (t : Option (TrunkRecord τ)) : TrunkDb ρ τ :=
  { db with trunks := update db.trunks trunkId t }

def npdTrunkActivate (fresh : Option τ) (l2create : Handlers ρ τ) : TrunkDb ρ τ :=
  match db.trunks trunkId, fresh with
  | none, some rest => (db.setTrunk trunkId (some ⟨∅, rest⟩)).notify l2create
  | _, _ => db

def npdTrunkPortAdd (supported : Bool) (l2delete join : Handlers ρ τ) :
    TrunkDb ρ τ × TrunkReturnCode :=
  match db.trunks trunkId, db.eth_ports eth_index with
  | none, _ => (db, .trunkNotexists)
  | some _, none => (db, .portNotexists)
  | some trunkdata, some eth_port =>
    if eth_index ∈ trunkdata.ports then (db, .portExists)
    else if eth_port.trunkid ≠ none ∧ eth_port.trunkid ≠ some trunkId then (db, .membershipConfict)
    else if eth_port.isIpIntf then (db, .portL3Intfg)
    else if trunkdata.ports.card > maxPortPerTrunk - 1 then (db, .portMbrsFull)
    else if supported = false then (db, .unsupport)
    else
      let db := db.notify l2delete
      let db := { db with
        switch_ports := db.switch_ports \ eth_port.switch_port_index.toFinset }
      match db.trunks trunkId, db.eth_ports eth_index with
      | some trunkdata, some eth_port =>
        let db := db.setPort eth_index
          { eth_port with trunkid := some trunkId, switch_port_index := none }
        let db := db.setTrunk trunkId
          (some { trunkdata with ports := insert eth_index trunkdata.ports })
        (db.notify join, .errNone)
      | _, _ => (db, .trunkNotexists)

/-- The deletion of a member has no result: the second search writes over its own stack. -/
def npdTrunkPortDel : Option (TrunkDb ρ τ × TrunkReturnCode) :=
  match db.eth_ports eth_index, db.trunks trunkId with
  | none, _ => some (db, .portNotexists)
  | some _, none => some (db, .trunkNotexists)
  | some _, some trunkdata => if eth_index ∈ trunkdata.ports then none else some (db, .portNotexists)

def delPorts : List ℕ → TrunkDb ρ τ → Option (TrunkDb ρ τ × TrunkReturnCode)
  | [], db => some (db, .errNone)
  | p :: ps, db => do
    let (db, ret) ← npdTrunkPortDel db trunkId p
    if ret = .errNone then delPorts ps db else some (db, ret)

def destroyTrunk (trunk : TrunkRecord τ) (told : List (Handlers ρ τ)) :
    Option (TrunkDb ρ τ × TrunkReturnCode) := do
  let (db, ret) ← delPorts trunkId (trunk.ports.sort (· ≤ ·)) db
  if ret = .errNone then some ((told.foldl notify db).setTrunk trunkId none, .errNone)
  else some (db, ret)

def npdTrunkDestroyNode (delete l2delete : Handlers ρ τ) : Option (TrunkDb ρ τ × TrunkReturnCode) :=
  let db := db.notify delete
  match db.trunks trunkId with
  | none => some (db, .trunkNotexists)
  | some trunk => destroyTrunk db trunkId trunk [l2delete]

def npdTrunkDestroyNodeByName (found : Option UInt16) (l2delete delete : Handlers ρ τ) :
    Option (TrunkDb ρ τ × TrunkReturnCode) :=
  match found with
  | none => some (db, .trunkNotexists)
  | some id =>
    match db.trunks id with
    | none => some (db, .trunkNotexists)
    | some trunk => destroyTrunk db id trunk [l2delete, delete]

end

inductive TrunkCall (ρ τ : Type)
  | activate (trunkId : UInt16) (fresh : Option τ) (l2create : Handlers ρ τ)
  | portAdd (trunkId : UInt16) (eth_index : ℕ) (supported : Bool) (l2delete join : Handlers ρ τ)
  | portDel (trunkId : UInt16) (eth_index : ℕ)
  | destroyNode (trunkId : UInt16) (delete l2delete : Handlers ρ τ)
  | destroyNodeByName (found : Option UInt16) (l2delete delete : Handlers ρ τ)

open TrunkCall

section

variable {ρ τ : Type} {t : TrunkRecord τ}

def TrunkCall.run (db : TrunkDb ρ τ) : TrunkCall ρ τ → Option (TrunkDb ρ τ)
  | .activate trunkId fresh l2create => some (npdTrunkActivate db trunkId fresh l2create)
  | .portAdd trunkId eth_index supported l2delete join =>
    some (npdTrunkPortAdd db trunkId eth_index supported l2delete join).1
  | .portDel trunkId eth_index => (npdTrunkPortDel db trunkId eth_index).map Prod.fst
  | .destroyNode trunkId delete l2delete =>
    (npdTrunkDestroyNode db trunkId delete l2delete).map Prod.fst
  | .destroyNodeByName found l2delete delete =>
    (npdTrunkDestroyNodeByName db found l2delete delete).map Prod.fst

/-- The handlers that a call may run, in their order. -/
def TrunkCall.handlers : TrunkCall ρ τ → List (Handlers ρ τ)
  | .activate _ _ l2create => [l2create]
  | .portAdd _ _ _ l2delete join => [l2delete, join]
  | .portDel _ _ => []
  | .destroyNode _ delete l2delete => [delete, l2delete]
  | .destroyNodeByName _ l2delete delete => [l2delete, delete]

/-- The records of the ports and of the trunks agree. -/
structure TrunkOk (db : TrunkDb ρ τ) : Prop where
  member : ∀ p id, (∃ t, db.trunks id = some t ∧ p ∈ t.ports) ↔
    ∃ e, db.eth_ports p = some e ∧ e.trunkid = some id
  size : ∀ id t, db.trunks id = some t → t.ports.card ≤ maxPortPerTrunk
  switch : ∀ p e, db.eth_ports p = some e → (p ∈ db.switch_ports ↔ e.trunkid = none) ∧
    e.switch_port_index = if e.trunkid = none then some p else none

/-- The other fields of the ports. -/
def TrunkDb.rest (db : TrunkDb ρ τ) (p : ℕ) : Option ρ := (db.eth_ports p).map EthPort.rest

def Through : List (Handlers ρ τ) → TrunkDb ρ τ → TrunkDb ρ τ → Prop
  | [], db, db' => db'.rest = db.rest
  | h :: hs, db, db' => ∃ db₁ : TrunkDb ρ τ, db₁.rest = db.rest ∧ Through hs (db₁.notify h) db'

variable {db db' : TrunkDb ρ τ} {h : Handlers ρ τ} {trunkId : UInt16} {eth_index : ℕ}

theorem TrunkOk.notify (hok : TrunkOk db) (h : Handlers ρ τ) : TrunkOk (db.notify h) := by
  constructor
  · intro p id
    have hmb := hok.member p id
    simp only [TrunkDb.notify, map_eq_some_iff]
    grind
  · intro id t ht
    simp only [TrunkDb.notify, map_eq_some_iff] at ht
    obtain ⟨t', ht', rfl⟩ := ht
    exact hok.size id t' ht'
  · intro p e he
    simp only [TrunkDb.notify, map_eq_some_iff] at he
    obtain ⟨e', he', rfl⟩ := he
    exact hok.switch p e' he'

theorem TrunkOk.add (hok : TrunkOk db) {e : EthPort ρ}
    (ht : db.trunks trunkId = some t) (he : db.eth_ports eth_index = some e) (ho : e.trunkid = none)
    (hc : t.ports.card < maxPortPerTrunk) :
    TrunkOk ((({ db with switch_ports := db.switch_ports \ {eth_index} } : TrunkDb ρ τ).setPort
      eth_index { e with trunkid := some trunkId, switch_port_index := none }).setTrunk trunkId
        (some { t with ports := insert eth_index t.ports })) := by
  have hn : eth_index ∉ t.ports := fun hme => by
    obtain ⟨e', he', hid⟩ := (hok.member eth_index trunkId).mp ⟨t, ht, hme⟩
    grind
  refine ⟨fun p id => ?_, fun id t' ht' => ?_, fun p e' he' => ?_⟩
  · have hmb := hok.member p id
    simp only [setTrunk, setPort, update_apply] at hmb ⊢
    grind
  · simp only [setTrunk, setPort, update_apply] at ht'
    have hc' : (insert eth_index t.ports).card = t.ports.card + 1 :=
      card_insert_of_notMem hn
    have hsz := hok.size id t'
    grind
  · have hsw := hok.switch p e'
    simp only [setTrunk, setPort, update_apply] at he' ⊢
    grind

theorem Through.congr {hs : List (Handlers ρ τ)} {db'' : TrunkDb ρ τ} (h : Through hs db db')
    (hrs : db''.rest = db'.rest) : Through hs db db'' := by
  induction hs generalizing db with
  | nil => exact hrs.trans h
  | cons handlers hs ih =>
    obtain ⟨db₁, hdb₁, hth⟩ := h
    exact ⟨db₁, hdb₁, ih hth⟩

section

variable (hok : TrunkOk db)
include hok

section

variable (ht : db.trunks trunkId = some t)
include ht

end

end

end

end Chanos.Trunk

import Chanos.Database.Replica
import Chanos.Database.Search

/-!
# Messages as announcements

Each id of a table is a register, whose value is the synchronised bytes of the entry with that id. A
mutator that changes them announces the change (`CoreStep.announces`), and a message that is
received does to the receiver's register what the announcement says (`recv_carried`).
-/

namespace Chanos.Database

open Lib List Function Option Bytes

variable {σ σ' : Schema}

inductive Carries (σ : Schema) : SyncMsg → Option (ℕ × RegMsg (List UInt8)) → Prop
  | entry {op : SyncOp} {id : ℕ} (hop : op.IsItem) (hlt : id < σ.entry_num) (d : σ.Data) :
    Carries σ (σ.entryMsg op id d) (some (id, op.regMsg (head σ.sync_size d)))
  | empty {id : ℕ} (hle : id ≤ σ.entry_num) : Carries σ (σ.emptyMsg id) none

/-! ## What is sent -/

theorem announces_entry {c c' : Core σ} {op : SyncOp} {entry_id : ℕ} {o : Option σ.Data}
    (hop : op.IsItem) (hlt : entry_id < σ.entry_num)
    (hget : dbTableGetEntry c' = update (dbTableGetEntry c) entry_id o) (d : σ.Data)
    (hse : announce (synced c entry_id) (o.map (head σ.sync_size)) =
      [op.regMsg (head σ.sync_size d)])
    {rest : List SyncMsg} (hrs : rest = [] ∨ rest = [σ.emptyMsg (entry_id + 1)]) :
    ∃ as, Forall₂ (Carries σ) (σ.entryMsg op entry_id d :: rest) as ∧
      ∀ id, onRegister id as = announce (synced c id) (synced c' id) := by
  -- The message after it carries nothing.
  obtain ⟨as, has, hno⟩ : ∃ as : List (Option (ℕ × RegMsg (List UInt8))),
      Forall₂ (Carries σ) rest as ∧ ∀ id, onRegister id as = [] := by
    rcases hrs with rfl | rfl
    · exact ⟨[], .nil, fun id => rfl⟩
    · exact ⟨[none], .cons (.empty hlt) .nil, fun id => rfl⟩
  refine ⟨_, .cons (.entry hop hlt d) has, fun id => ?_⟩
  rw [synced_update hget]
  by_cases hid : id = entry_id
  · rw [hid, update_self, hse, onRegister_cons_self, hno]
  · rw [update_of_ne hid, announce_self, onRegister_cons_of_ne (Ne.symm hid), hno]

theorem CoreStep.announces {c c' : Core σ} {site : Option (ℕ × ℕ)} {eff : Effect σ.entry_size}
    (hst : CoreStep c site eff c') (hc : Occupancy c) :
    ∃ as, Forall₂ (Carries σ) (eff.msgs σ (dbTableGetEntry c)) as ∧
      ∀ id, onRegister id as = announce (synced c id) (synced c' id) := by
  have hget := hst.get_eq hc
  have hv := hst.effect_valid hc
  cases eff with
  | none =>
    refine ⟨[], .nil, fun id => ?_⟩
    rw [show synced c' id = synced c id from synced_of_get (congrFun hget id), announce_self]
    rfl
  | insert entry_id data =>
    obtain ⟨hlt, hno⟩ := hv
    refine announces_entry (.inl rfl) hlt hget data ?_ ?_
    · rw [synced_of_get hno]
      rfl
    · split_ifs
      · exact .inr rfl
      · exact .inl rfl
  | update entry_id data =>
    obtain ⟨old, ho⟩ := isSome_iff_exists.mp hv
    rw [Effect.msgs, ho]
    dsimp only
    split_ifs with hh
    · -- The synchronised bytes are those that were there.
      have hsm : synced c' = synced c := by
        rw [synced_update hget, map_some, hh]
        exact update_eq_self_iff.mpr (synced_of_get ho).symm
      refine ⟨[], .nil, fun id => ?_⟩
      rw [hsm, announce_self]
      rfl
    · refine announces_entry (.inr (.inl rfl)) (hc.lt_of_get ho) hget data ?_ (.inl rfl)
      rw [synced_of_get ho, map_some, map_some, announce, if_neg (Ne.symm hh)]
      rfl
  | delete entry_id =>
    obtain ⟨old, ho⟩ := isSome_iff_exists.mp hv
    rw [Effect.msgs, ho]
    refine announces_entry (.inr (.inr rfl)) (hc.lt_of_get ho) hget old ?_ (.inl rfl)
    rw [synced_of_get ho]
    rfl

/-! ## What is received -/

theorem entryMsg_eq_blockMsg (op : SyncOp) (entry_id : ℕ) (d : σ.Data) :
    σ.entryMsg op entry_id d = σ.blockMsg op entry_id [d] := by
  rw [Schema.entryMsg, Schema.blockMsg, flatMap_cons, flatMap_nil, append_nil]
  rfl

theorem emptyMsg_eq_blockMsg (entry_id : ℕ) :
    σ.emptyMsg entry_id = σ.blockMsg .itemAdd entry_id [] := rfl

theorem recv_carried (hsm : SameWire σ σ') (hf : σ.Fits) (host : Host) (env : Env)
    {reg : Registry} {k : ℕ} {t : Table σ'} (hr : reg.Holds k t) (hoc : Occupancy t.toCore)
    {m : SyncMsg} {a : Option (ℕ × RegMsg (List UInt8))} (hm : Carries σ m a) :
    ∃ fuel code t' eff, dbtableRecv host env fuel reg m.wire =
        some (.ok ({ reg with tables := reg.tables.set k ⟨σ', t'⟩ }, code)) ∧
      HasEffect env false t none eff t' ∧
      ∀ id, synced t'.toCore id = receive (onRegister id [a]) (synced t.toCore id) := by
  cases hm with
  | @entry op entry_id hop hlt d =>
    have hlen : headerSize + σ.entry_size * [d].length < 2 ^ 31 := blockLen_lt hf.sendNum_pos
    obtain ⟨d', hd'⟩ := hsm.exists_data d
    obtain ⟨out, eff, ho, he, hsy⟩ := recvEntry_regMsg env d' (-1) hoc hop
      (hsm.entry_num ▸ hlt) (hsm.fits hf)
    have hcs := (recvEntries_cons hsm hlt hlen hop env [] [] hd' rfl t (-1)).trans
      (congrArg (· >>= _) ho)
    rw [head_ntoh hsm hd'] at hsy
    have hre : ∀ id, synced out.table.1.toCore id =
        receive (onRegister id [some (entry_id, op.regMsg (head σ.sync_size d))])
          (synced t.toCore id) := by
      intro id
      rw [hsy]
      by_cases hid : id = entry_id
      · rw [hid, update_self, onRegister_cons_self]
        rfl
      · rw [update_of_ne hid, onRegister_cons_of_ne (Ne.symm hid)]
        rfl
    rw [entryMsg_eq_blockMsg]
    cases out with
    | next t' r w =>
      obtain ⟨fuel, code, hca⟩ := recv_blockMsg hlt hlen hsm host env hr hop hcs
      exact ⟨fuel, code, t', eff, hca, he, hre⟩
    | ret t' code =>
      obtain ⟨fuel, code, hca⟩ := recv_blockMsg hlt hlen hsm host env hr hop hcs
      exact ⟨fuel, code, t', eff, hca, he, hre⟩
  | @empty entry_id hle =>
    rw [emptyMsg_eq_blockMsg]
    obtain ⟨fuel, code, hca⟩ := recv_blockMsg (show _ + [].length ≤ _ from hle)
      (by rw [length_nil, Nat.mul_zero]; decide) hsm host env hr (.inl rfl) rfl
    exact ⟨fuel, code, t, .none, hca, .skip, fun id => rfl⟩

/-! ## Sequences of messages -/

/-- The buffers are received for a table, which then has the synchronised bytes `v`. -/
abbrev Receives (host : Host) (reg : Registry) (k : ℕ) (σ : Schema)
    (bufs : List (Env × List UInt8)) (v : ℕ → Option (List UInt8)) : Prop :=
  ∃ t : Table σ, Received host reg bufs (.ok { reg with tables := reg.tables.set k ⟨σ, t⟩ }) ∧
    Occupancy t.toCore ∧ synced t.toCore = v

section

variable {host : Host} {reg : Registry} {k : ℕ} {t : Table σ'} {bufs bufs' : List (Env × List UInt8)}
  {v v' : ℕ → Option (List UInt8)}

theorem receives_append (h : Receives host reg k σ' bufs v) (hreg : reg.Holds k t)
    (hrs : ∀ reg' (t' : Table σ'), reg'.Holds k t' → Occupancy t'.toCore → synced t'.toCore = v →
      Receives host reg' k σ' bufs' v') : Receives host reg k σ' (bufs ++ bufs') v' := by
  obtain ⟨t₁, hrecv₁, hocc₁, hsy₁⟩ := h
  obtain ⟨t₂, hrecv₂, hocc₂, hsy₂⟩ := hrs _ t₁ (hreg.set t₁) hocc₁ hsy₁
  have happ := hrecv₁.append hrecv₂
  rw [set_set] at happ
  exact ⟨t₂, happ, hocc₂, hsy₂⟩

theorem receives_nil (hreg : reg.Holds k t) (hocc : Occupancy t.toCore) (h : synced t.toCore = v) :
    Receives host reg k σ' [] v := by
  refine ⟨t, ?_, hocc, h⟩
  rw [set_eq_self_of_getElem? hreg.table]
  exact .nil

end

section

variable {ms ms' : List SyncMsg} {as as' : List (Option (ℕ × RegMsg (List UInt8)))} {reg : Registry}
  {k : ℕ} {t : Table σ'} {bufs bufs' : List (Env × List UInt8)} (hsame : SameWire σ σ')
  (hfits : σ.Fits) (host : Host) (hreg : reg.Holds k t) (hocc : Occupancy t.toCore)
  (hm : Forall₂ (Carries σ) ms as) (hbufs : bufs.map Prod.snd = ms.map SyncMsg.wire)
include hsame hfits hreg hocc hm hbufs

theorem receives_carried :
    Receives host reg k σ' bufs fun id => receive (onRegister id as) (synced t.toCore id) := by
  induction hm generalizing reg t bufs with
  | nil =>
    obtain rfl := map_eq_nil_iff.mp hbufs
    exact receives_nil hreg hocc rfl
  | @cons m a ms as hc _ ih =>
    obtain ⟨⟨env, buf⟩, rest, rfl, rfl, hrest⟩ := map_eq_cons_iff.mp hbufs
    obtain ⟨fuel, code, t', eff, hcall, he, hsync⟩ := recv_carried hsame hfits host env hreg hocc hc
    refine receives_append ⟨t', .cons hcall .nil, he.core.occupancy hocc, funext hsync⟩ hreg
      fun reg' t₁ hreg' hocc' hsync' => ?_
    have hcons : ∀ id, onRegister id (a :: as) = onRegister id [a] ++ onRegister id as :=
      fun id => onRegister_cons ..
    simp only [hcons, receive_append]
    simpa only [hsync'] using ih hreg' hocc' hrest

end

def syncedKeys : Schema := { twoKeys with sync_mode := DB_SYNC_ALL }

def syncEnv : Env := ⟨true, false, some fun _ => 0, fun n _ => zero n⟩

theorem syncedKeys_sameWire : SameWire syncedKeys syncedKeys :=
  ⟨rfl, rfl, rfl, rfl, fun _ _ h => h⟩

end Chanos.Database

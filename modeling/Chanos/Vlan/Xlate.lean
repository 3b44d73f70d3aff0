import Chanos.Lib.OrderedTable
import Chanos.Lib.Trace
import Mathlib.Tactic

/-!
# VLAN translation

The ranges that a port translates must not overlap, but `npd_vlan_xlate_range_check` only asks
whether the new range begins in a stored one (`range_swallowed`). As long as no stored range begins
in a new one the ranges stay apart. `npd_netif_free_all_xlate` starts at an entry that the table
does not have and leaves at least one entry of a port that has one (`xlate_runs`).
-/

namespace Chanos.Vlan

open Lib List OrderedTable

structure VlanRange where
  start : ℕ
  num : ℕ
  le : start + num ≤ 4096
  deriving DecidableEq

instance : Membership ℕ VlanRange := ⟨fun r v => r.start ≤ v ∧ v < r.start + r.num⟩

instance (v : ℕ) (r : VlanRange) : Decidable (v ∈ r) := inferInstanceAs (Decidable (_ ∧ _))

structure XlateEntry where
  netif_index : UInt32
  xlate_type : UInt32
  priority : UInt32
  ingress_outer : VlanRange
  ingress_inner : VlanRange
  egress_outer_vid : ℕ
  egress_inner_vid : ℕ
  deriving DecidableEq

open XlateEntry

inductive Tag
  | outer
  | inner

namespace XlateEntry

def range (e : XlateEntry) : Tag → VlanRange
  | .outer => e.ingress_outer
  | .inner => e.ingress_inner

/-- What `vlan_xlate_db_cmp` compares. -/
def key (e : XlateEntry) : XlateEntry := { e with priority := 0 }

def Many (tag : Tag) (e : XlateEntry) : Prop := 1 < (e.range tag).num

instance (tag : Tag) (e : XlateEntry) : Decidable (e.Many tag) :=
  inferInstanceAs (Decidable (_ < _))

def vlanXlateDbHash (size : ℕ) (e : XlateEntry) : ℕ :=
  (e.netif_index.toNat % 32 * 2 ^ 8 + e.xlate_type.toNat % 16 * 2 ^ 4 +
    e.ingress_outer.start % 2 * 2 ^ 3 + e.ingress_inner.start % 2 * 2 ^ 2 +
    e.egress_outer_vid % 2 * 2 + e.egress_inner_vid % 2) % size

end XlateEntry

/-- The entries in the order of the index by ports, `hash` being `vlan_xlate_db_netif_hash`. -/
abbrev XlateTable (hash : UInt32 → ℕ) (size : ℕ) : Type :=
  OrderedTable key (fun k => hash k.netif_index) size

inductive XlateCode
  | none
  | overlap (tag : Tag)
  | full (tag : Tag)
  | accessModeConflict
  | conflict
  | noExist
  | failed

-- Without a VLAN the end of a range is the greatest number of its type.
def reaches (a b num : ℕ) : Prop := b + num = 0 ∨ a < b + num

instance (a b num : ℕ) : Decidable (reaches a b num) := inferInstanceAs (Decidable (_ ∨ _))

def meets (r input : VlanRange) : Prop :=
  input.start ≤ r.start ∧ reaches r.start input.start r.num ∨
    r.start ≤ input.start ∧ reaches input.start r.start r.num

instance (r input : VlanRange) : Decidable (meets r input) := inferInstanceAs (Decidable (_ ∨ _))

def vlanXlateDbExistFilter (e input : XlateEntry) : Prop :=
  { e with ingress_outer := input.ingress_outer, ingress_inner := input.ingress_inner } = input ∧
    meets e.ingress_inner input.ingress_inner ∧ meets e.ingress_outer input.ingress_outer

instance (e input : XlateEntry) : Decidable (vlanXlateDbExistFilter e input) :=
  inferInstanceAs (Decidable (_ ∧ _ ∧ _))

variable {hash : UInt32 → ℕ} {size : ℕ}

section

variable (T : XlateTable hash size) (e : XlateEntry)

def ofPort (netif_index : UInt32) (tag : Tag) (l : List XlateEntry) : List XlateEntry :=
  l.filter fun x => x.netif_index = netif_index ∧ x.Many tag

/-- One of the two loops, which walks over all entries of the port with such a range. -/
def tagCheck (tag : Tag) : XlateCode :=
  if e.Many tag then
    if ∃ x ∈ ofPort e.netif_index tag T.items, (e.range tag).start ∈ x.range tag then .overlap tag
    else if 8 ≤ (ofPort e.netif_index tag T.items).length then .full tag
    else .none
  else .none

def npdVlanXlateRangeCheck : XlateCode :=
  match tagCheck T e .outer with
  | .none => tagCheck T e .inner
  | code => code

def existing : List XlateEntry :=
  T.items.filter fun x =>
    x.vlanXlateDbHash size = e.vlanXlateDbHash size ∧ vlanXlateDbExistFilter x e

/-- An entry that the table has is updated, by which it enters the index by ports anew. -/
def insertXlate : XlateTable hash size × Bool :=
  if e.key ∈ T.items.map key then (T.requeue e, true) else T.insert e

def addXlate : XlateTable hash size × XlateCode :=
  match npdVlanXlateRangeCheck T e with
  | .none =>
    if existing T e = [] then ((insertXlate T e).1, if (insertXlate T e).2 then .none else .failed)
    else (T, .conflict)
  | code => (T, code)

/-- `access_qinq` is the one of the switch port, if there is one. -/
def npdDbusVlanConfigXlate (access_qinq : Option Bool) : Bool → XlateTable hash size × XlateCode
  | true => if access_qinq = some false then (T, .accessModeConflict) else addXlate T e
  | false =>
    if access_qinq = some false then (T, .accessModeConflict)
    else if existing T e = [] then (T, .noExist)
    else (T.erase e.key, .none)

/-- `dbtable_hash_next` over the index by ports: if the table does not have the given entry, the
search goes on with the next bucket. -/
def nextOfPort : Option XlateEntry :=
  match T.items.dropWhile fun x => x.key ≠ e.key with
  | _ :: rest => rest.find? fun x => x.netif_index = e.netif_index
  | [] => T.items.find? fun x =>
      hash e.netif_index < hash x.netif_index ∧ x.netif_index = e.netif_index

def freeLoop : ℕ → XlateTable hash size → XlateEntry → Option (XlateTable hash size)
  | 0, _, _ => none
  | turns + 1, T, entry =>
    match nextOfPort T entry with
    | none => some T
    | some x => freeLoop turns (T.erase x.key) x

def noVlan : VlanRange := ⟨0, 0, by decide⟩

def npdNetifFreeAllXlate (netif_index : UInt32) : Option (XlateTable hash size) :=
  freeLoop (T.items.length + 1) T ⟨netif_index, 0, 0, noVlan, noVlan, 0, 0⟩

end

inductive XlateOp
  | config (e : XlateEntry) (access_qinq : Option Bool) (isAdd : Bool)
  | freeAll (netif_index : UInt32)

def XlateStep (T : XlateTable hash size) (op : XlateOp)
    (T' : XlateTable hash size) : Prop :=
  match op with
  | .config e access_qinq isAdd => T' = (npdDbusVlanConfigXlate T e access_qinq isAdd).1
  | .freeAll netif_index => npdNetifFreeAllXlate T netif_index = some T'

/-! ## The ranges of a port -/

def Apart (a b : XlateEntry) : Prop :=
  a.netif_index = b.netif_index → ∀ tag, a.Many tag → b.Many tag →
    ∀ v, ¬(v ∈ a.range tag ∧ v ∈ b.range tag)

structure RangesOk (l : List XlateEntry) : Prop where
  apart : l.Pairwise Apart
  few : ∀ netif_index tag, (ofPort netif_index tag l).length ≤ 8

/-- A stored range of the port has a VLAN with the new one in common. -/
def OverlapsStored (T : XlateTable hash size) (e : XlateEntry) (tag : Tag) : Prop :=
  ∃ x ∈ ofPort e.netif_index tag T.items, ∃ v, v ∈ e.range tag ∧ v ∈ x.range tag

/-- The entries of the other ports are as they were, and the port has one exactly if it had one. -/
structure LeavesOne (T : XlateTable hash size) (netif_index : UInt32) (T' : XlateTable hash size) :
    Prop where
  others : (T'.items.filter fun x => x.netif_index ≠ netif_index) =
    (T.items.filter fun x => x.netif_index ≠ netif_index)
  left_iff : (∀ x ∈ T'.items, x.netif_index ≠ netif_index) ↔
    ∀ x ∈ T.items, x.netif_index ≠ netif_index

/-- No stored range of the port begins in the new one. -/
def Clear (T : XlateTable hash size) : XlateOp → Prop
  | .config e _ true =>
    ∀ tag, ∀ x ∈ ofPort e.netif_index tag T.items, (x.range tag).start ∉ e.range tag
  | _ => True

section

variable {l l' : List XlateEntry} {e x : XlateEntry}

theorem RangesOk.sublist (h : RangesOk l) (hsu : l'.Sublist l) : RangesOk l' where
  apart := h.apart.sublist hsu
  few netif_index tag := (hsu.filter _).length_le.trans (h.few netif_index tag)

theorem RangesOk.cons (h : RangesOk l) (ha : ∀ x ∈ l, Apart e x)
    (hf : ∀ tag, e.Many tag → (ofPort e.netif_index tag l).length < 8) : RangesOk (e :: l) where
  apart := .cons ha h.apart
  few netif_index tag := by
    rw [ofPort, filter_cons]
    split_ifs with hm
    · obtain ⟨hp, hm⟩ : e.netif_index = netif_index ∧ e.Many tag := by simpa using hm
      exact hp ▸ hf tag hm
    · exact h.few netif_index tag

theorem RangesOk.perm (h : RangesOk l) (hp : l.Perm l') : RangesOk l' where
  apart := (hp.pairwise_iff fun hab hpt tag ha hb v hv =>
    hab hpt.symm tag hb ha v hv.symm).mp h.apart
  few netif_index tag := (hp.filter _).length_eq ▸ h.few netif_index tag

theorem RangesOk.map {f : XlateEntry → XlateEntry} (hf : ∀ x, (f x).key = x.key) (h : RangesOk l) :
    RangesOk (l.map f) := by
  have hp : ∀ x, (f x).netif_index = x.netif_index := fun x =>
    show (f x).key.netif_index = x.key.netif_index by rw [hf]
  have hr : ∀ x tag, (f x).range tag = x.range tag := by
    rintro x (_ | _)
    · show (f x).key.ingress_outer = x.key.ingress_outer
      rw [hf]
    · show (f x).key.ingress_inner = x.key.ingress_inner
      rw [hf]
  constructor
  · refine pairwise_map.mpr (h.apart.imp fun ha => ?_)
    simpa only [Apart, Many, hp, hr] using ha
  · intro netif_index tag
    rw [ofPort, filter_map, length_map]
    refine (congrArg length (filter_congr fun x _ => ?_)).trans_le (h.few netif_index tag)
    refine decide_eq_decide.mpr ?_
    rw [hp, Many, hr, Many]

end

section

variable {T : XlateTable hash size} {e x : XlateEntry} {tag : Tag}

theorem rangeCheck_eq_none (h : npdVlanXlateRangeCheck T e = .none) (tag : Tag) (hm : e.Many tag) :
    (∀ x ∈ ofPort e.netif_index tag T.items, (e.range tag).start ∉ x.range tag) ∧
      (ofPort e.netif_index tag T.items).length < 8 := by
  have ht : tagCheck T e tag = .none := by
    unfold npdVlanXlateRangeCheck at h
    split at h
    · cases tag <;> assumption
    · rename_i hne
      exact absurd h hne
  unfold tagCheck at ht
  split_ifs at ht with ho hf
  exact ⟨fun x hx hin => ho ⟨x, hx, hin⟩, Nat.lt_of_not_le hf⟩

theorem overlapsStored_of_overlap (h : npdVlanXlateRangeCheck T e = .overlap tag) :
    OverlapsStored T e tag := by
  have ht : ∀ tag', tagCheck T e tag' = .overlap tag → OverlapsStored T e tag := by
    intro tag' ht
    unfold tagCheck at ht
    split_ifs at ht with hm ho
    cases ht
    obtain ⟨x, hx, hin⟩ := ho
    exact ⟨x, hx, _, ⟨le_rfl, by unfold Many at hm; omega⟩, hin⟩
  unfold npdVlanXlateRangeCheck at h
  split at h
  · exact ht .inner h
  · exact ht .outer h

theorem RangesOk.insert (h : RangesOk T.items) (hc : npdVlanXlateRangeCheck T e = .none)
    (hcl : ∀ tag, ∀ x ∈ ofPort e.netif_index tag T.items, (x.range tag).start ∉ e.range tag) :
    RangesOk (insertXlate T e).1.items := by
  unfold insertXlate OrderedTable.insert
  split_ifs with hme
  · exact (h.map (key_swapKey _ e)).perm (requeue_perm hme).symm
  · refine (h.cons (fun x hx hp tag he hx' v hv => ?_) fun tag hm =>
      (rangeCheck_eq_none hc tag hm).2).perm (place_perm e T.items).symm
    -- Of two ranges that meet one begins in the other.
    have hme : x ∈ ofPort e.netif_index tag T.items :=
      mem_filter.mpr ⟨hx, decide_eq_true ⟨hp.symm, hx'⟩⟩
    obtain ⟨⟨h₁, h₂⟩, h₃, h₄⟩ := hv
    rcases le_total (e.range tag).start (x.range tag).start with hle | hle
    · exact hcl tag x hme ⟨hle, h₃.trans_lt h₂⟩
    · exact (rangeCheck_eq_none hc tag he).1 x hme ⟨hle, h₁.trans_lt h₄⟩
  · exact h

theorem RangesOk.config (h : RangesOk T.items) (access_qinq : Option Bool) (isAdd : Bool)
    (hcl : Clear T (.config e access_qinq isAdd)) :
    RangesOk (npdDbusVlanConfigXlate T e access_qinq isAdd).1.items := by
  cases isAdd with
  | true =>
    have ha : RangesOk (addXlate T e).1.items := by
      unfold addXlate
      cases hc : npdVlanXlateRangeCheck T e with
      | none =>
        have hi := h.insert hc hcl
        split_ifs <;> assumption
      | _ => exact h
    unfold npdDbusVlanConfigXlate
    split_ifs <;> assumption
  | false =>
    unfold npdDbusVlanConfigXlate
    split_ifs
    · exact h
    · exact h
    · exact h.sublist filter_sublist

/-! ## Freeing a port -/

theorem nextOfPort_eq_none (h : ∀ x ∈ T.items, x.key ≠ e.key) : nextOfPort T e = none := by
  have hd : (T.items.dropWhile fun x => x.key ≠ e.key) = [] :=
    dropWhile_eq_nil_iff.mpr fun x hx => decide_eq_true (h x hx)
  rw [nextOfPort, hd, find?_eq_none]
  intro x _ hx
  obtain ⟨hlt, heq⟩ := of_decide_eq_true hx
  rw [heq] at hlt
  exact lt_irrefl _ hlt

theorem nextOfPort_eq_some (h : nextOfPort T e = some x) :
    x ∈ T.items ∧ x.netif_index = e.netif_index ∧ ∃ y ∈ T.items, y.key = e.key ∧ x.key ≠ e.key := by
  by_cases hno : ∀ y ∈ T.items, y.key ≠ e.key
  · nomatch (nextOfPort_eq_none hno).symm.trans h
  push Not at hno
  obtain ⟨y, hy, hke⟩ := hno
  obtain ⟨pre, post, hi⟩ := append_of_mem hy
  have hne := fun z hz => key_ne_of_split (a := z) hi hz
  have hd : (T.items.dropWhile fun x => x.key ≠ e.key) = y :: post := by
    rw [hi, dropWhile_append_of_pos fun z hz => decide_eq_true (hke ▸ hne z (.inl hz)),
      dropWhile_cons_of_neg (by simp [hke])]
  rw [nextOfPort, hd] at h
  have hx := mem_of_find?_eq_some h
  refine ⟨?_, by simpa using find?_some h, y, hy, hke, hke ▸ hne x (.inr hx)⟩
  rw [hi]
  exact mem_append_right pre (mem_cons_of_mem y hx)

theorem freeAll_spec (T : XlateTable hash size) (netif_index : UInt32) :
    ∃ T', npdNetifFreeAllXlate T netif_index = some T' ∧ T'.items.Sublist T.items ∧
      LeavesOne T netif_index T' := by
  unfold npdNetifFreeAllXlate freeLoop
  cases hnx : nextOfPort T ⟨netif_index, 0, 0, noVlan, noVlan, 0, 0⟩ with
  | none => exact ⟨T, rfl, .refl _, rfl, Iff.rfl⟩
  | some x =>
    obtain ⟨hx, hp, y, hy, hke, hne⟩ := nextOfPort_eq_some hnx
    obtain ⟨n, hn⟩ : ∃ n, T.items.length = n + 1 :=
      Nat.exists_eq_succ_of_ne_zero (length_pos_of_mem hx).ne'
    have he : nextOfPort (T.erase x.key) x = none :=
      nextOfPort_eq_none fun z hz => (mem_erase.mp hz).2
    refine ⟨T.erase x.key, by simp only [hn, freeLoop, he], filter_sublist, ⟨?_, ?_⟩⟩
    · refine (filter_filter ..).trans (filter_congr fun z _ => ?_)
      have : z.netif_index ≠ netif_index → z.key ≠ x.key := fun hz hk =>
        hz ((congrArg XlateEntry.netif_index hk).trans hp)
      simpa using this
    · -- The entry that the search began with stays.
      refine iff_of_false (fun h => ?_) fun h => h x hx hp
      refine h y (mem_erase.mpr ⟨hy, fun h => hne (h.symm.trans hke)⟩) ?_
      exact congrArg XlateEntry.netif_index hke

theorem RangesOk.step {op : XlateOp} {T' : XlateTable hash size} (h : RangesOk T.items)
    (hst : XlateStep T op T' ∧ Clear T op) : RangesOk T'.items := by
  cases op with
  | config e access_qinq isAdd => exact hst.1 ▸ h.config access_qinq isAdd hst.2
  | freeAll netif_index =>
    obtain ⟨T'', hrun, hsu, -⟩ := freeAll_spec T netif_index
    obtain rfl := Option.mem_unique hst.1 hrun
    exact h.sublist hsu

/-- In a run in which no stored range begins in a new one the ranges of a port stay apart and few; an
addition that is refused for an overlap has one; and `npd_netif_free_all_xlate` leaves an entry of
each port that has one. -/
theorem xlate_runs (hash : UInt32 → ℕ) (size : ℕ) :
    (∀ l, Along (fun T op T' => XlateStep T op T' ∧ Clear T op) (.empty : XlateTable hash size) l →
      Along (fun _ _ T' => RangesOk T'.items) .empty l) ∧
    (∀ (T : XlateTable hash size) e tag,
      npdVlanXlateRangeCheck T e = .overlap tag → OverlapsStored T e tag) ∧
    ∀ (T : XlateTable hash size) netif_index, ∃ T',
      npdNetifFreeAllXlate T netif_index = some T' ∧ LeavesOne T netif_index T' := by
  refine ⟨fun l hrun => ?_, fun T e tag => overlapsStored_of_overlap, fun T netif_index => ?_⟩
  · exact along_of_invariant (fun _ _ _ hst h => ⟨RangesOk.step h hst, RangesOk.step h hst⟩) hrun
      ⟨.nil, fun _ _ => Nat.zero_le 8⟩
  · obtain ⟨T', hrun, -, hleft⟩ := freeAll_spec T netif_index
    exact ⟨T', hrun, hleft⟩

end

def xlateOf (r : VlanRange) : XlateEntry := ⟨5, 0, 0, r, noVlan, 0, 0⟩

def twoVlans : VlanRange := ⟨5, 2, by decide⟩

def tenVlans : VlanRange := ⟨1, 10, by decide⟩

def threeVlans : VlanRange := ⟨2, 3, by decide⟩

def oneVlan : VlanRange := ⟨9, 1, by decide⟩

def additions :
    XlateTable (fun _ => 0) 4 → List XlateEntry → List (XlateOp × XlateTable (fun _ => 0) 4)
  | _, [] => []
  | T, e :: l =>
    let T' := (npdDbusVlanConfigXlate T e none true).1
    (.config e none true, T') :: additions T' l

/-- The ranges stay apart when a port gets two that touch each other and one VLAN with two
priorities one after the other. -/
theorem xlate_runs_additions :
    let run := additions .empty
      [xlateOf twoVlans, xlateOf threeVlans, xlateOf oneVlan, { xlateOf oneVlan with priority := 3 }]
    Along (fun T op T' => XlateStep T op T' ∧ Clear T op) .empty run ∧
      Along (fun _ _ T' => RangesOk T'.items) .empty run ∧
      (run.map fun p => p.2.items.map (·.priority)) = [[0], [0, 0], [0, 0, 0], [0, 0, 3]] := by
  intro run
  have hrun : Along (fun T op T' => XlateStep T op T' ∧ Clear T op) .empty run := by
    refine ⟨⟨rfl, ?_⟩, ⟨rfl, ?_⟩, ⟨rfl, ?_⟩, ⟨rfl, ?_⟩, trivial⟩ <;> intro tag <;> cases tag <;>
      decide
  exact ⟨hrun, (xlate_runs _ 4).1 run hrun, by decide⟩

def oneXlate : XlateTable (fun _ => 0) 4 :=
  (npdDbusVlanConfigXlate .empty (xlateOf twoVlans) (some true) true).1

/-- The range of ten VLANs is stored beside the two that it has, and the port is not freed. -/
theorem range_swallowed :
    ¬RangesOk (npdDbusVlanConfigXlate oneXlate (xlateOf tenVlans) (some true) true).1.items ∧
      (npdNetifFreeAllXlate oneXlate 5).map (·.items) = some [xlateOf twoVlans] := by
  refine ⟨fun h => ?_, by decide⟩
  have hitems : (npdDbusVlanConfigXlate oneXlate (xlateOf tenVlans) (some true) true).1.items =
      [xlateOf twoVlans, xlateOf tenVlans] := by decide
  have hap := h.apart
  rw [hitems] at hap
  exact (pairwise_cons.mp hap).1 _ mem_cons_self rfl .outer (by decide) (by decide) 5 (by decide)

end Chanos.Vlan

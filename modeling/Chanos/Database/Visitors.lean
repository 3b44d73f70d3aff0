import Chanos.Database.SequenceWalk

/-!
# The visitors of a whole table

Five loops go over all entries of a table. `dbtable_hash_traversal` and `dbtable_sequence_traversal`
hand each entry to a callback, which may delete it; they are one loop (`Traversal.run`), with the
list of nodes that are left as its invariant (`Traversal.Left`).
-/

namespace Chanos.Database

open Lib List Option

variable {σ : Schema} {chains : ℕ → List ℕ}

def nextNode (chain : List ℕ) (id : ℕ) : Except Fault (Option ℕ) :=
  match chain.dropWhile (· ≠ id) with
  | [] => .error .danglingPointer
  | _ :: rest => .ok rest.head?

structure Traversal (σ : Schema) where
  table : Table σ
  i : ℕ
  backet : Option ℕ
  proc_data : σ.Data
  count : ℕ
  handed : List σ.Data

def Traversal.start (env : Env) (t : Table σ) (pos size : ℕ) : Traversal σ where
  table := t
  i := 0
  backet := if 0 < size then (t.chains pos 0).head? else none
  proc_data := env.malloc _ .caller
  count := 0
  handed := []

/-- The loops of a traversal, over the buckets and along their chains: `none` when `fuel` turns are
not enough. -/
def Traversal.run (pos size : ℕ) (filter : Option (σ.Data → Bool))
    (processor : Option (Table σ → σ.Data → Table σ)) :
    ℕ → Traversal σ → Option (Except Fault (Traversal σ))
  | 0, _ => none
  | fuel + 1, s =>
    match s.backet with
    | none =>
      if s.i + 1 < size then
        run pos size filter processor fuel
          { s with i := s.i + 1, backet := (s.table.chains pos (s.i + 1)).head? }
      else some (.ok s)
    | some id =>
      match nextNode (s.table.chains pos s.i) id with
      | .error f => some (.error f)
      | .ok next =>
        let proc_data := (dbTableGetEntry s.table.toCore id).getD s.proc_data
        if filter.all fun f => f proc_data then
          match processor with
          | none =>
            run pos size filter processor fuel { s with backet := next, proc_data, count := s.count + 1 }
          | some p =>
            run pos size filter processor fuel
              { s with
                table := p s.table proc_data, backet := next, proc_data, count := s.count + 1,
                handed := s.handed ++ [proc_data] }
        else run pos size filter processor fuel { s with backet := next, proc_data }

section

variable (env : Env) (t : Table σ) (i : ℕ) (filter : Option (σ.Data → Bool))
  (processor : Option (Table σ → σ.Data → Table σ))

def dbtableHashTraversal (fuel : ℕ) :
    Option (Except Fault (Traversal σ)) :=
  match σ.hashIndex i with
  | none => some (.ok (Traversal.start env t i 0))
  | some h => Traversal.run i h.size filter processor fuel (Traversal.start env t i h.size)

def dbtableSequenceTraversal (fuel : ℕ) :
    Option (Except Fault (Traversal σ)) :=
  match σ.sequenceIndex i with
  | none => some (.ok (Traversal.start env t i 0))
  | some s => Traversal.run i s.size filter processor fuel (Traversal.start env t i s.size)

/-! ## The other visitors -/

def returnRun {n : ℕ} (get : ℕ → Option (Bytes n)) (filter : Option (Bytes n → Bool))
    (limit : Option ℕ) : Bytes n → ℕ → List ℕ → List (Bytes n)
  | _, _, [] => []
  | buf, count, id :: ids =>
    let proc_data := (get id).getD buf
    if filter.all fun f => f proc_data then
      proc_data :: if limit.any fun len => len ≤ count + 1 then []
        else returnRun get filter limit proc_data (count + 1) ids
    else returnRun get filter limit proc_data count ids

/-- `dbtable_hash_return`: what it copies out and the count it returns. -/
def dbtableHashReturn (outdata : Bool) (len : ℕ) (filter : Option (σ.Data → Bool)) :
    List σ.Data × ℕ :=
  match σ.hashIndex i with
  | none => ([], 0)
  | some h =>
    let limit := if len ≠ 0 ∧ outdata = true then some len else none
    let taken := returnRun (dbTableGetEntry t.toCore) filter limit (env.malloc _ .caller) 0
      (nodesFrom (t.chains i) h.size 0)
    (if outdata then taken else [], taken.length)

def showRun {n : ℕ} (get : ℕ → Option (Bytes n)) (chains : ℕ → List ℕ) (size : ℕ) :
    ℕ → ℕ → Option ℕ → Bytes n → List (Bytes n) → Option (List (Bytes n))
  | 0, _, _, _, _ => none
  | fuel + 1, i, none, buf, shown =>
    if i + 1 < size then showRun get chains size fuel (i + 1) (chains (i + 1)).head? buf shown
    else some shown
  | fuel + 1, i, some id, buf, shown =>
    let proc_data := (get id).getD buf
    showRun get chains size fuel i (some id) proc_data (shown ++ [proc_data])

/-- `dbtable_hash_show` with a function to show the entries: what it shows, or `none` when `fuel`
turns are not enough. -/
def dbtableHashShow (fuel : ℕ) : Option (List σ.Data) :=
  match σ.hashIndex i with
  | none => some []
  | some h =>
    showRun (dbTableGetEntry t.toCore) (t.chains i) h.size fuel 0
      (if 0 < h.size then (t.chains i 0).head? else none) (env.malloc _ .caller) []

def arrayShowRun {n : ℕ} (get : ℕ → Option (Bytes n)) (filter : Option (Bytes n → Bool)) :
    Bytes n → List ℕ → List (Bytes n) × ℕ
  | _, [] => ([], 0)
  | buf, id :: ids =>
    let proc_data := (get id).getD buf
    let rest := arrayShowRun get filter proc_data ids
    if filter.all fun f => f proc_data then
      (if (get id).isSome then proc_data :: rest.1 else rest.1, rest.2 + 1)
    else rest

def dbtableArrayShow : List σ.Data × ℕ :=
  if σ.isArray i then
    arrayShowRun (dbTableGetEntry t.toCore) filter (env.malloc _ .caller) (List.range σ.entry_num)
  else ([], 0)

end

/-- Every entry is visited once, and counted. -/
def VisitsAll (t : Table σ) (ds : List σ.Data) (count : ℕ) : Prop :=
  ∃ ids, EachOnce (dbTableGetEntry t.toCore) ids ds ∧ count = ids.length

def DeletesHanded (processor : Table σ → σ.Data → Table σ) : Prop :=
  ∀ t d, processor t d = t ∨ ∃ site id, TableStep t site (.delete id) (processor t d) ∧
    dbTableGetEntry t.toCore id = some d

/-! ## A traversal visits what is left -/

theorem nodesFrom_of_le {size b : ℕ} (hb : size ≤ b) : nodesFrom chains size b = [] := by
  rw [nodesFrom, Nat.sub_eq_zero_of_le hb, range'_zero, flatMap_nil]

theorem nextNode_append {l₁ l₂ : List ℕ} {id : ℕ} (hid : id ∉ l₁) :
    nextNode (l₁ ++ id :: l₂) id = .ok l₂.head? := by
  have hd : (l₁ ++ id :: l₂).dropWhile (· ≠ id) = id :: l₂ := by
    rw [dropWhile_append_of_pos]
    · simp
    · intro j hj
      refine decide_eq_true ?_
      rintro rfl
      exact hid hj
  unfold nextNode
  rw [hd]

theorem notMem_behind {n size b id : ℕ} {bucket : Bytes n → Option ℕ} {get : ℕ → Option (Bytes n)}
    {l₁ l₂ : List ℕ} (h : Indexed bucket get chains)
    (hch : chains b = l₁ ++ id :: l₂) : id ∉ l₂ ++ nodesFrom chains size (b + 1) := by
  have hid : id ∈ chains b := by
    rw [hch]
    exact mem_append_right _ mem_cons_self
  rw [mem_append]
  rintro (hme | hme)
  · have hn := nodup_chain h b
    rw [hch] at hn
    exact (nodup_cons.mp (nodup_append.mp hn).2.1).1 hme
  · obtain ⟨b', hr, hid'⟩ := mem_flatMap.mp hme
    have hbb := chain_unique h hid hid'
    have hle := (mem_range'_1.mp hr).1
    omega

section

variable {pos size : ℕ} {ix : Index σ.entry_size} {get₀ : ℕ → Option σ.Data} {s : Traversal σ}
  {left : List ℕ} {processor : Table σ → σ.Data → Table σ}

/-- The nodes that are left to a traversal: those of the current chain from the current node on, and
those of the buckets behind it. -/
structure Traversal.Left (pos size : ℕ) (ix : Index σ.entry_size) (get₀ : ℕ → Option σ.Data)
    (s : Traversal σ) (left : List ℕ) : Prop where
  occupancy : Occupancy s.table.toCore
  indexedAt : IndexedAt s.table.toCore pos ix
  eq : ∃ before rest, s.table.chains pos s.i = before ++ rest ∧ rest.head? = s.backet ∧
    left = rest ++ nodesFrom (s.table.chains pos) size (s.i + 1)
  same : ∀ id ∈ left, dbTableGetEntry s.table.toCore id = get₀ id

theorem Traversal.Left.bucket (h : s.Left pos size ix get₀ left) (hno : s.backet = none)
    (hi : s.i + 1 < size) :
    Traversal.Left pos size ix get₀
      { s with i := s.i + 1, backet := (s.table.chains pos (s.i + 1)).head? } left := by
  obtain ⟨before, rest, -, hh, hlf⟩ := h.eq
  obtain rfl : rest = [] := head?_eq_none_iff.mp (hh.trans hno)
  refine ⟨h.occupancy, h.indexedAt, ⟨[], _, rfl, rfl, ?_⟩, h.same⟩
  rw [hlf, nil_append, nodesFrom_succ hi]

theorem Traversal.Left.end (h : s.Left pos size ix get₀ left) (hno : s.backet = none)
    (hi : ¬s.i + 1 < size) : left = [] := by
  obtain ⟨before, rest, -, hh, hlf⟩ := h.eq
  obtain rfl : rest = [] := head?_eq_none_iff.mp (hh.trans hno)
  rw [hlf, nil_append, nodesFrom_of_le (by omega)]

variable (hix : σ.index_list[pos]? = some ix) (hk : Keyed ix.bucket ix.cmp)

include hix hk

theorem chains_of_delete {t t' : Table σ} {site : Option (ℕ × ℕ)} {id b : ℕ} {l₁ l₂ : List ℕ}
    (ho : Occupancy t.toCore) (hI : IndexedAt t.toCore pos ix)
    (hse : TableStep t site (.delete id) t') (hch : t.chains pos b = l₁ ++ id :: l₂) :
    t'.chains pos = Function.update (t.chains pos) b (l₁ ++ l₂) := by
  have hco := hse.coreStep ho
  obtain ⟨old, hol, hr⟩ := hco.follows ho hix (Or.inr hk) hI trivial trivial
  obtain ⟨d, hd, hb⟩ := hI.indexed.mem_iff.mp
    (hch ▸ mem_append_right _ mem_cons_self : id ∈ t.chains pos b)
  obtain rfl : old = d := mem_unique hol hd
  have ha : ix ≠ .array := by
    rintro rfl
    cases hb
  obtain ⟨b', l, hb', ⟨m₁, m₂, rfl, hl⟩, hc⟩ := hr.resolve_left fun h => ha h.1
  obtain rfl : b = b' := mem_unique hb hb'
  -- The node is in the chain once, so it was cut out where it is known to be.
  have hn : id ∉ l₁ ++ l₂ := by
    have hnd := nodup_chain hI.indexed b
    rw [hch] at hnd
    exact (nodup_cons.mp (nodup_middle.mp hnd)).1
  rw [mem_append, not_or] at hn
  obtain ⟨rfl, -, rfl⟩ :=
    (append_cons_inj_of_notMem hn.1 hn.2).mp (hch.symm.trans hl)
  exact hc

section

variable (hp : DeletesHanded processor) (h : s.Left pos size ix get₀ left)
include hp h

theorem Traversal.Left.node {id : ℕ} (hid : s.backet = some id) :
    ∃ next d left', nextNode (s.table.chains pos s.i) id = .ok next ∧
      dbTableGetEntry s.table.toCore id = some d ∧ left = id :: left' ∧ get₀ id = some d ∧
      ∀ proc_data count handed, Traversal.Left pos size ix get₀
        ⟨processor s.table d, s.i, next, proc_data, count, handed⟩ left' := by
  obtain ⟨before, rest, hch, hh, hlf⟩ := h.eq
  obtain ⟨rest', rfl⟩ := head?_eq_some_iff.mp (hh.trans hid)
  -- The node has an entry, and is not among those before it.
  obtain ⟨d, hd, -⟩ := h.indexedAt.indexed.mem_iff.mp
    (hch ▸ mem_append_right _ mem_cons_self : id ∈ s.table.chains pos s.i)
  have hnd : (before ++ id :: rest').Nodup := hch ▸ nodup_chain h.indexedAt.indexed s.i
  have hn : id ∉ before := fun hme =>
    (nodup_append.mp hnd).2.2 id hme id mem_cons_self rfl
  rw [cons_append] at hlf
  subst hlf
  have hget₀ : get₀ id = some d := (h.same id mem_cons_self).symm.trans hd
  refine ⟨rest'.head?, d, _, by rw [hch, nextNode_append hn], hd, rfl, hget₀,
    fun proc_data count handed => ?_⟩
  rcases hp s.table d with hsm | ⟨site, id', hse, hid'⟩
  · -- The table is as it was.
    rw [hsm]
    exact ⟨h.occupancy, h.indexedAt, ⟨before ++ [id], rest', by simp [hch], rfl, rfl⟩,
      fun j hj => h.same j (mem_cons_of_mem _ hj)⟩
  · -- The entry that was deleted is the one of this node, since no other compares equal to it.
    obtain rfl : id' = id := h.indexedAt.eq_of_get hk.refl hid' hd
    have hco := hse.coreStep h.occupancy
    have hc := chains_of_delete hix hk h.occupancy h.indexedAt hse hch
    have hget := hco.get_eq h.occupancy
    have hb : nodesFrom ((processor s.table d).chains pos) size (s.i + 1) =
        nodesFrom (s.table.chains pos) size (s.i + 1) := by
      rw [hc]
      refine flatMap_update_of_notMem fun hme => ?_
      have := (mem_range'_1.mp hme).1
      omega
    refine ⟨hco.occupancy h.occupancy,
      hco.indexedAt h.occupancy hix (Or.inr hk) h.indexedAt trivial trivial,
      ⟨before, rest', ?_, rfl, by rw [hb]⟩, fun j hj => ?_⟩
    · change (processor s.table d).chains pos s.i = _
      rw [hc, Function.update_self]
    have hne : j ≠ id' := by
      rintro rfl
      exact notMem_behind h.indexedAt.indexed hch hj
    rw [← h.same j (mem_cons_of_mem _ hj), hget]
    exact Function.update_of_ne hne _ _

theorem Traversal.Left.run :
    ∃ fuel s', Traversal.run pos size none (some processor) fuel s = some (.ok s') ∧
      s'.handed = s.handed ++ left.filterMap get₀ ∧ s'.count = s.count + left.length := by
  -- By induction on the number of turns: each visits a node that is left or goes to a new bucket.
  induction hm : left.length + (size - s.i) using Nat.strong_induction_on generalizing s left with
  | _ m ih =>
    cases hb : s.backet with
    | none =>
      by_cases hi : s.i + 1 < size
      · obtain ⟨fuel, s', hrun, hh, hc⟩ :=
          ih (left.length + (size - (s.i + 1))) (by omega) (h.bucket hb hi) rfl
        refine ⟨fuel + 1, s', ?_, hh, hc⟩
        rw [Traversal.run, hb]
        rw [if_pos hi, hrun]
      · obtain rfl := h.end hb hi
        refine ⟨1, s, ?_, by simp, by simp⟩
        rw [Traversal.run, hb]
        rw [if_neg hi]
    | some id =>
      obtain ⟨next, d, left', hn, hd, rfl, hget₀, ha⟩ := h.node hix hk hp hb
      obtain ⟨fuel, s', hrun, hh, hc⟩ :=
        ih (left'.length + (size - s.i)) (by rw [← hm, length_cons]; omega)
          (ha d (s.count + 1) (s.handed ++ [d])) rfl
      refine ⟨fuel + 1, s', ?_, ?_, ?_⟩
      · rw [Traversal.run, hb]
        dsimp only
        rw [hn]
        rw [hd, getD_some]
        exact hrun
      · rw [hh, filterMap_cons_some hget₀, append_assoc, singleton_append]
      · rw [hc, length_cons]
        dsimp only
        omega

end

theorem traversal_visitsAll (hlt : ∀ d b, ix.bucket d = some b → b < size)
    (hp : DeletesHanded processor) (env : Env) {t : Table σ} (ho : Occupancy t.toCore)
    (hI : IndexedAt t.toCore pos ix) :
    ∃ fuel s', Traversal.run pos size none (some processor) fuel (Traversal.start env t pos size) =
      some (.ok s') ∧ VisitsAll t s'.handed s'.count := by
  have hsz : 0 < size := by
    obtain ⟨b, hb⟩ := isSome_iff_exists.mp (hk.inRange (Bytes.zero σ.entry_size))
    exact Nat.zero_lt_of_lt (hlt _ b hb)
  have hst : (Traversal.start env t pos size).Left pos size ix (dbTableGetEntry t.toCore)
      (nodesFrom (t.chains pos) size 0) := by
    refine ⟨ho, hI, ⟨[], t.chains pos 0, rfl, ?_, nodesFrom_succ hsz⟩, fun _ _ => rfl⟩
    exact (if_pos hsz).symm
  obtain ⟨fuel, s', hrun, hh, hc⟩ := hst.run hix hk hp
  refine ⟨fuel, s', hrun, nodesFrom (t.chains pos) size 0, ?_, ?_⟩
  · rw [hh]
    exact eachOnce_nodes hI.indexed hlt hk.inRange
  · rw [hc]
    exact Nat.zero_add _

end

/-! ## The other loops -/

section

variable {n : ℕ} {get : ℕ → Option (Bytes n)} {ids : List ℕ}

section

variable (ha : ∀ id ∈ ids, (get id).isSome = true)
include ha

theorem returnRun_none (buf : Bytes n) (count : ℕ) :
    returnRun get none none buf count ids = ids.filterMap get := by
  induction ids generalizing buf count with
  | nil => rfl
  | cons id ids ih =>
    obtain ⟨d, hd⟩ := isSome_iff_exists.mp (ha id mem_cons_self)
    rw [returnRun, hd, getD_some, filterMap_cons_some hd]
    exact congrArg (d :: ·) (ih (fun j hj => ha j (mem_cons_of_mem _ hj)) _ _)

theorem returnRun_some {len : ℕ} (buf : Bytes n) {count : ℕ} (hc : count < len) :
    returnRun get none (some len) buf count ids = (ids.filterMap get).take (len - count) := by
  induction ids generalizing buf count with
  | nil => rw [returnRun, filterMap_nil, take_nil]
  | cons id ids ih =>
    obtain ⟨d, hd⟩ := isSome_iff_exists.mp (ha id mem_cons_self)
    -- The limit is above what was taken so far, so this entry is taken.
    have hk : len - count = len - (count + 1) + 1 := by omega
    rw [returnRun, hd, getD_some, filterMap_cons_some hd, hk, take_succ_cons]
    refine congrArg (d :: ·) ?_
    by_cases hf : len ≤ count + 1
    · rw [Nat.sub_eq_zero_of_le hf, take_zero]
      exact if_pos (decide_eq_true hf)
    · refine (if_neg (by simpa using hf)).trans ?_
      exact ih (fun j hj => ha j (mem_cons_of_mem _ hj)) d (Nat.not_le.mp hf)

end

theorem showRun_node (chains : ℕ → List ℕ) (size fuel i id : ℕ) (buf : Bytes n)
    (shown : List (Bytes n)) : showRun get chains size fuel i (some id) buf shown = none := by
  induction fuel generalizing buf shown with
  | zero => rfl
  | succ fuel ih => exact ih _ _

section

variable (get : ℕ → Option (Bytes n))

theorem showRun_eq_some_iff (chains : ℕ → List ℕ) (size i : ℕ)
    (buf : Bytes n) (shown shown' : List (Bytes n)) (hi : i < size) :
    (∃ fuel, showRun get chains size fuel i (chains i).head? buf shown = some shown') ↔
      nodesFrom chains size i = [] ∧ shown' = shown := by
  -- By induction on the number of buckets that are left.
  induction hm : size - i generalizing i with
  | zero => omega
  | succ m ih =>
    rw [nodesFrom_succ hi, append_eq_nil_iff]
    cases hch : chains i with
    | cons id ids =>
      refine ⟨fun ⟨fuel, hrun⟩ => ?_, fun h => absurd h.1.1 (by simp)⟩
      rw [head?_cons, showRun_node] at hrun
      simp at hrun
    | nil =>
      rw [head?_nil]
      by_cases hn : i + 1 < size
      · rw [and_iff_right rfl, ← ih (i + 1) hn (by omega)]
        constructor
        · rintro ⟨fuel, hrun⟩
          cases fuel with
          | zero => cases hrun
          | succ fuel =>
            rw [showRun, if_pos hn] at hrun
            exact ⟨fuel, hrun⟩
        · rintro ⟨fuel, hrun⟩
          exact ⟨fuel + 1, by rw [showRun, if_pos hn, hrun]⟩
      · rw [nodesFrom_of_le (by omega)]
        constructor
        · rintro ⟨fuel, hrun⟩
          cases fuel with
          | zero => cases hrun
          | succ fuel =>
            rw [showRun, if_neg hn] at hrun
            exact ⟨⟨rfl, rfl⟩, (some.inj hrun).symm⟩
        · rintro ⟨-, rfl⟩
          exact ⟨1, by rw [showRun, if_neg hn]⟩

theorem filterMap_filter_isSome (ids : List ℕ) :
    (ids.filter fun id => (get id).isSome).filterMap get = ids.filterMap get := by
  rw [filterMap_filter]
  refine congrArg (filterMap · ids) (funext fun id => ?_)
  cases hd : get id <;> rfl

theorem arrayShowRun_eq (buf : Bytes n) (ids : List ℕ) :
    arrayShowRun get none buf ids = (ids.filterMap get, ids.length) := by
  induction ids generalizing buf with
  | nil => rfl
  | cons id ids ih =>
    rw [arrayShowRun, ih]
    cases hd : get id with
    | none =>
      rw [filterMap_cons_none hd, length_cons]
      rfl
    | some d =>
      rw [filterMap_cons_some hd, length_cons]
      rfl

end

end

/-! ## When the visitors are right -/

section

variable {t : Table σ} {i : ℕ}

theorem EachOnce.length_eq {c : Core σ} {ids : List ℕ} {ds : List σ.Data}
    (h : EachOnce (dbTableGetEntry c) ids ds) (ho : Occupancy c) :
    ids.length = c.entry_use_num.toNat := by
  have hse : ids.toFinset =
      (Finset.range σ.entry_num).filter fun id => (c.entries id).exist = true := by
    ext id
    rw [List.mem_toFinset, h.mem_iff, ho.isSome_get, Finset.mem_filter, Finset.mem_range]
    exact ⟨fun hex => ⟨ho.exist_lt id hex, hex⟩, fun hex => hex.2⟩
  calc ids.length = ids.toFinset.card := (toFinset_card_of_nodup h.nodup).symm
    _ = c.entry_use_num.toNat := by rw [hse, ho.use_num_eq_card]

theorem EachOnce.length_ds {n : ℕ} {get : ℕ → Option (Bytes n)} {ids : List ℕ}
    {ds : List (Bytes n)} (h : EachOnce get ids ds) : ds.length = ids.length := by
  have hlen := congrArg length h.map_eq
  rw [length_map, length_map] at hlen
  exact hlen.symm

section

variable (env : Env) {h : HashIndex σ.entry_size} (hix : σ.hashIndex i = some h)
  (hk : Keyed h.bucket h.hash_cmp) (hoc : Occupancy t.toCore) (hI : IndexedAt t.toCore i (.hash h))
include hix hk hoc hI

theorem hashReturn_visitsAll_iff (outdata : Bool) (len : ℕ) :
    VisitsAll t (dbtableHashReturn env t i outdata len none).1
        (dbtableHashReturn env t i outdata len none).2 ↔
      t.entry_use_num.toNat = 0 ∨ outdata = true ∧ (len = 0 ∨ t.entry_use_num.toNat ≤ len) := by
  have ho := eachOnce_nodes hI.indexed h.bucket_lt hk.inRange
  set nodes := nodesFrom (t.chains i) h.size 0 with hns
  set all := nodes.filterMap (dbTableGetEntry t.toCore) with ha
  have hlen : nodes.length = t.entry_use_num.toNat := ho.length_eq hoc
  have hlen' : all.length = t.entry_use_num.toNat := ho.length_ds.trans hlen
  -- What the loop takes.
  obtain ⟨taken, ht, hr⟩ : ∃ taken, taken = all.take
      ((if len ≠ 0 ∧ outdata = true then some len else none).getD nodes.length) ∧
      dbtableHashReturn env t i outdata len none =
        (if outdata then taken else [], taken.length) := by
    refine ⟨_, rfl, ?_⟩
    have hsome : ∀ id ∈ nodes, (dbTableGetEntry t.toCore id).isSome = true := fun id =>
      (ho.mem_iff id).mp
    unfold dbtableHashReturn
    rw [hix]
    dsimp only
    rw [← hns]
    by_cases hli : len ≠ 0 ∧ outdata = true
    · rw [if_pos hli, returnRun_some hsome _ (Nat.pos_of_ne_zero hli.1), Nat.sub_zero, getD_some]
    · rw [if_neg hli, returnRun_none hsome, getD_none,
        take_of_length_le (hlen'.trans hlen.symm).le]
  rw [hr]
  constructor
  · rintro ⟨ids, hi, hcn⟩
    have hU := hi.length_eq hoc
    have hds := hi.length_ds
    cases outdata with
    | false =>
      refine .inl ?_
      rw [if_neg Bool.false_ne_true, length_nil] at hds
      omega
    | true =>
      refine .inr ⟨rfl, ?_⟩
      by_cases h0 : len = 0
      · exact .inl h0
      · rw [if_pos ⟨h0, rfl⟩, getD_some] at ht
        rw [ht, length_take] at hcn
        omega
  · intro hcd
    have hf : taken = all := by
      rw [ht]
      refine take_of_length_le ?_
      split_ifs with hli
      · rw [getD_some]
        omega
      · rw [getD_none]
        omega
    have hc : (if outdata = true then taken else []) = all := by
      rcases hcd with hz | ⟨rfl, -⟩
      · have hn : all = [] := length_eq_zero_iff.mp (hlen'.trans hz)
        rw [hf, hn]
        exact ite_self _
      · rw [if_pos rfl, hf]
    rw [hc, hf]
    exact ⟨nodes, ho, by omega⟩

theorem hashShow_iff :
    (∃ fuel shown, dbtableHashShow env t i fuel = some shown ∧
        ∃ ids, EachOnce (dbTableGetEntry t.toCore) ids shown) ↔ t.entry_use_num.toNat = 0 := by
  have ho := eachOnce_nodes hI.indexed h.bucket_lt hk.inRange
  have hlen := ho.length_eq hoc
  have hsz : 0 < h.size := by
    obtain ⟨b, hb⟩ := isSome_iff_exists.mp (hk.inRange (Bytes.zero σ.entry_size))
    exact Nat.zero_lt_of_lt (h.bucket_lt _ b hb)
  have hsh : ∀ fuel, dbtableHashShow env t i fuel = showRun (dbTableGetEntry t.toCore) (t.chains i)
      h.size fuel 0 (t.chains i 0).head? (env.malloc _ .caller) [] := by
    intro fuel
    unfold dbtableHashShow
    rw [hix]
    dsimp only
    rw [if_pos hsz]
  have he := fun shown => showRun_eq_some_iff (dbTableGetEntry t.toCore) (t.chains i) h.size
    0 (env.malloc _ .caller) [] shown hsz
  constructor
  · rintro ⟨fuel, shown, hrun, -⟩
    rw [hsh] at hrun
    obtain ⟨hn, -⟩ := (he shown).mp ⟨fuel, hrun⟩
    rw [← hlen, hn, length_nil]
  · intro hz
    have hn : nodesFrom (t.chains i) h.size 0 = [] :=
      length_eq_zero_iff.mp (hlen.trans hz)
    obtain ⟨fuel, hrun⟩ := (he []).mpr ⟨hn, rfl⟩
    rw [hn, filterMap_nil] at ho
    exact ⟨fuel, [], (hsh fuel).trans hrun, [], ho⟩

end

theorem arrayShow_visitsAll_iff (env : Env) (harr : σ.isArray i = true)
    (ho : Occupancy t.toCore) :
    VisitsAll t (dbtableArrayShow env t i none).1 (dbtableArrayShow env t i none).2 ↔
      t.entry_use_num.toNat = σ.entry_num := by
  have hsh : dbtableArrayShow env t i none =
      ((range σ.entry_num).filterMap (dbTableGetEntry t.toCore), σ.entry_num) := by
    unfold dbtableArrayShow
    rw [if_pos harr, arrayShowRun_eq, length_range]
  -- What it shows is right in every case.
  have hon : EachOnce (dbTableGetEntry t.toCore)
      ((range σ.entry_num).filter fun id => (dbTableGetEntry t.toCore id).isSome)
      ((range σ.entry_num).filterMap (dbTableGetEntry t.toCore)) := by
    refine ⟨nodup_range.filter _, fun id => ?_, ?_⟩
    · rw [mem_filter, mem_range]
      refine ⟨fun hid => hid.2, fun hid => ⟨?_, hid⟩⟩
      obtain ⟨d, hd⟩ := isSome_iff_exists.mp hid
      exact ho.lt_of_get hd
    · rw [map_get_eq fun id hid => (mem_filter.mp hid).2, filterMap_filter_isSome]
  rw [hsh]
  constructor
  · rintro ⟨ids, hi, hc⟩
    exact (hi.length_eq ho).symm.trans hc.symm
  · intro hf
    exact ⟨_, hon, by rw [hon.length_eq ho, hf]⟩

end

/-- The five visitors of a table. In the states that are reached by writes of new keys, the
traversals are right with every processor that leaves the table alone or deletes the entry it was
handed; `dbtable_hash_return` if and only if its buffer takes all entries; `dbtable_hash_show` if
and only if there is no entry; and `dbtable_array_show`, in all states that are reached, if and only
if every id is in use. -/
theorem visitors_right_iff (env : Env) :
    (∀ (i : ℕ) (h : HashIndex σ.entry_size) (t : Table σ), σ.hashIndex i = some h →
      Keyed h.bucket h.hash_cmp → TableReachable (newKeysIn h) t →
      (∀ processor : Table σ → σ.Data → Table σ, DeletesHanded processor →
        ∃ fuel s, dbtableHashTraversal env t i none (some processor) fuel = some (.ok s) ∧
          VisitsAll t s.handed s.count) ∧
      (∀ outdata len, VisitsAll t (dbtableHashReturn env t i outdata len none).1
          (dbtableHashReturn env t i outdata len none).2 ↔
        t.entry_use_num.toNat = 0 ∨ outdata = true ∧ (len = 0 ∨ t.entry_use_num.toNat ≤ len)) ∧
      ((∃ fuel shown, dbtableHashShow env t i fuel = some shown ∧
        ∃ ids, EachOnce (dbTableGetEntry t.toCore) ids shown) ↔ t.entry_use_num.toNat = 0)) ∧
    (∀ (i : ℕ) (s : SequenceIndex σ.entry_size) (t : Table σ), σ.sequenceIndex i = some s →
      Keyed (Index.sequence s).bucket s.sequence_cmp →
      TableReachable (newKeysAt i (.sequence s)) t →
      ∀ processor : Table σ → σ.Data → Table σ, DeletesHanded processor →
        ∃ fuel r, dbtableSequenceTraversal env t i none (some processor) fuel = some (.ok r) ∧
          VisitsAll t r.handed r.count) ∧
    (∀ (i : ℕ) (t : Table σ), σ.isArray i = true → TableReachable (fun _ _ _ => True) t →
      (VisitsAll t (dbtableArrayShow env t i none).1 (dbtableArrayShow env t i none).2 ↔
        t.entry_use_num.toNat = σ.entry_num)) := by
  refine ⟨fun i h t hix hk ht => ?_, fun i s t hix hk ht processor hp => ?_, fun i t harr ht => ?_⟩
  · have hpos := Schema.hashIndex_eq_some.mp hix
    obtain ⟨hocc, hI⟩ := ht.indexedAt hpos (Or.inr hk) fun hs hkeys => ⟨hkeys, hs.ownBucketAt hix⟩
    refine ⟨fun processor hp => ?_, hashReturn_visitsAll_iff env hix hk hocc hI,
      hashShow_iff env hix hk hocc hI⟩
    unfold dbtableHashTraversal
    rw [hix]
    exact traversal_visitsAll hpos hk h.bucket_lt hp env hocc hI
  · have hpos := Schema.sequenceIndex_eq_some.mp hix
    obtain ⟨hocc, hI⟩ := ht.indexedAt hpos (Or.inr hk) fun _ hkeys => hkeys
    unfold dbtableSequenceTraversal
    rw [hix]
    exact traversal_visitsAll hpos hk s.bucket_lt hp env hocc hI
  · obtain ⟨hocc, -⟩ := ht.invariant (fun _ => True) trivial fun _ _ _ _ _ _ _ _ => trivial
    exact arrayShow_visitsAll_iff env harr hocc

/-- A traversal of a table with one entry visits it, and `dbtable_hash_show` does not end there. -/
theorem visitors_right_oneEntry :
    (∃ fuel s, dbtableHashTraversal quietEnv oneEntry 0 none (some fun t _ => t) fuel =
        some (.ok s) ∧ VisitsAll oneEntry s.handed s.count) ∧
      ¬∃ fuel shown, dbtableHashShow quietEnv oneEntry 0 fuel = some shown ∧
        ∃ ids, EachOnce (dbTableGetEntry oneEntry.toCore) ids shown := by
  have hreach : TableReachable (newKeysIn (byteHash 2 0)) oneEntry :=
    .single ⟨_, _, tableStep_oneEntry, newKeysIn_create _ _ _⟩
  have hkeyed : Keyed (byteHash 2 0).bucket (byteHash 2 0).hash_cmp :=
    (byteHash_works 2 0).resolve_left (by simp)
  obtain ⟨htraversal, -, hshow⟩ :=
    (visitors_right_iff quietEnv).1 0 (byteHash 2 0) oneEntry rfl hkeyed hreach
  refine ⟨htraversal _ fun _ _ => .inl rfl, fun h => ?_⟩
  nomatch hshow.mp h

def keysAndIds : Schema := { twoKeys with index_list := [.hash (byteHash 2 0), .array] }

def oneOfThree : Table keysAndIds :=
  (LocalOp.hashInsert 0 (twoBytes 1 7) : LocalOp keysAndIds.entry_size).after quietEnv
    (createDbtable keysAndIds)

/-- With one entry of three, `dbtable_hash_show` never ends, and `dbtable_array_show` counts three.
-/
theorem visitors_disagree :
    TableReachable (fun _ _ _ => True) oneOfThree ∧
      (∀ fuel, dbtableHashShow quietEnv oneOfThree 0 fuel = none) ∧
      dbtableArrayShow quietEnv oneOfThree 1 none = ([twoBytes 1 7], 3) := by
  have hrun : (LocalOp.hashInsert 0 (twoBytes 1 7) : LocalOp keysAndIds.entry_size).run quietEnv
      (createDbtable keysAndIds) = .ok (oneOfThree, 0) := rfl
  refine ⟨.single ⟨_, _, .localOp hrun, trivial⟩, fun fuel => ?_, rfl⟩
  cases fuel with
  | zero => rfl
  | succ fuel => exact showRun_node _ _ _ _ _ _ _

end Chanos.Database

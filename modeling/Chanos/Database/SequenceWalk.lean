import Chanos.Database.Cursor

/-!
# Iteration through a sequence index

`dbtable_sequence_traverse_next` returns the entry after the first one with a given key, and the
first entry for the key `-1`. `SequenceWalk` is an iteration: what the calls return, until one of
them does not return an entry. The keys come in order exactly when they increase along the nodes
(`sequenceIteration_iff`).
-/

namespace Chanos.Database

open Lib List Option Index LocalOp

variable {σ : Schema}

def firstKey : ℕ := 2 ^ 32 - 1

def traverseAfter {n : ℕ} (get : ℕ → Option (Bytes n)) (p : Bytes n → Bool) (rest : List ℕ) :
    List ℕ → Option (Bytes n)
  | [] => none
  | id :: ids =>
    match get id with
    | none => none
    | some d => if p d then (ids ++ rest).head?.bind get else traverseAfter get p rest ids

def headWalk {n : ℕ} (get : ℕ → Option (Bytes n)) (p : Bytes n → Bool) :
    Bytes n → List ℕ → Option (Bytes n)
  | _, [] => none
  | buf, id :: ids =>
    if p ((get id).getD buf) then get id else headWalk get p ((get id).getD buf) ids

section

variable (t : Table σ) (i sequence_index : ℕ)

def dbtableSequenceTraverseNext : Except Fault (Option σ.Data) :=
  match σ.sequenceIndex i with
  | none => .ok none
  | some s =>
    let get := dbTableGetEntry t.toCore
    let restart := sequence_index = firstKey ∨ s.size < s.sequence_index sequence_index
    let key := if restart then 0 else s.sequence_index sequence_index
    if s.size ≤ key then .error .outOfBounds
    else
      let rest := nodesFrom (t.chains i) s.size (key + 1)
      match t.chains i key with
      | [] => .ok (rest.head?.bind get)
      | id :: ids =>
        if restart then .ok (get id)
        else .ok (traverseAfter get (fun d => s.sequence_key d = sequence_index) rest (id :: ids))

def dbtableSequenceHead (data : σ.Data) : Except Fault (Option σ.Data) :=
  match σ.sequenceIndex i with
  | none => .ok none
  | some s =>
    let key := s.sequence_index sequence_index
    if s.size ≤ key then .error .outOfBounds
    else
      .ok (headWalk (dbTableGetEntry t.toCore) (fun d => s.sequence_key d = sequence_index) data
        (t.chains i key))

end

inductive SequenceWalk (t : Table σ) (i : ℕ) (s : SequenceIndex σ.entry_size) :
    Except Fault (Option σ.Data) → List σ.Data → Prop
  | done : SequenceWalk t i s (.ok none) []
  | next {d : σ.Data} {ds : List σ.Data}
      (h : SequenceWalk t i s (dbtableSequenceTraverseNext t i (s.sequence_key d)) ds) :
    SequenceWalk t i s (.ok (some d)) (d :: ds)

def ReturnsAllInOrder (t : Table σ) (s : SequenceIndex σ.entry_size) (ds : List σ.Data) : Prop :=
  (∃ ids, EachOnce (dbTableGetEntry t.toCore) ids ds) ∧ (ds.map s.sequence_key).Pairwise (· ≤ ·)

/-- An iteration that begins with the key `-1`, and one that begins with `dbtable_sequence_head` of
the least key, end, and return the existing entries once each and in the order of their keys. -/
def SequenceIterates (t : Table σ) (i : ℕ) (s : SequenceIndex σ.entry_size) : Prop :=
  (∃ ds, SequenceWalk t i s (dbtableSequenceTraverseNext t i firstKey) ds ∧
    ReturnsAllInOrder t s ds) ∧
  ∀ (id : ℕ) (d data : σ.Data), dbTableGetEntry t.toCore id = some d →
    (∀ j x, dbTableGetEntry t.toCore j = some x → s.sequence_key d ≤ s.sequence_key x) →
    ∃ ds, SequenceWalk t i s (dbtableSequenceHead t i (s.sequence_key d) data) ds ∧
      ReturnsAllInOrder t s ds

def entriesInOrder (t : Table σ) (i : ℕ) (s : SequenceIndex σ.entry_size) : List σ.Data :=
  (nodesFrom (t.chains i) s.size 0).filterMap (dbTableGetEntry t.toCore)

/-! ## Calls on an index that is right -/

section

variable {n : ℕ} {get : ℕ → Option (Bytes n)} {p : Bytes n → Bool} {id : ℕ} {d : Bytes n}
  {l₁ l₂ rest : List ℕ} (hsk : ∀ j ∈ l₁, ∃ x, get j = some x ∧ p x = false)
  (hd : get id = some d) (hp : p d = true)
include hsk hd hp

theorem traverseAfter_append :
    traverseAfter get p rest (l₁ ++ id :: l₂) = (l₂ ++ rest).head?.bind get := by
  induction l₁ with
  | nil =>
    rw [nil_append, traverseAfter, hd]
    exact if_pos hp
  | cons j l₁ ih =>
    obtain ⟨x, hx, hpx⟩ := hsk j mem_cons_self
    rw [cons_append, traverseAfter, hx]
    dsimp only
    rw [if_neg (by rw [hpx]; exact Bool.false_ne_true)]
    exact ih fun j hj => hsk j (mem_cons_of_mem _ hj)

theorem headWalk_append (buf : Bytes n) : headWalk get p buf (l₁ ++ id :: l₂) = some d := by
  induction l₁ generalizing buf with
  | nil => rw [nil_append, headWalk, hd, getD_some, if_pos hp]
  | cons j l₁ ih =>
    obtain ⟨x, hx, hpx⟩ := hsk j mem_cons_self
    rw [cons_append, headWalk, hx, getD_some, if_neg (by rw [hpx]; exact Bool.false_ne_true)]
    exact ih (fun j hj => hsk j (mem_cons_of_mem _ hj)) x

end

theorem SequenceIndex.bucket_eq_some {n : ℕ} {s : SequenceIndex n} {d : Bytes n} {b : ℕ} :
    (sequence s).bucket d = some b ↔ s.sequence_index (s.sequence_key d) = b ∧ b < s.size := by
  change s.bucketAt (s.sequence_key d) = some b ↔ _
  rw [bucketAt, filter_eq_some_iff, some.injEq, decide_eq_true_iff]

open SequenceIndex

theorem SequenceIndex.bucket_lt {n : ℕ} (s : SequenceIndex n) (d : Bytes n) (b : ℕ)
    (hb : (sequence s).bucket d = some b) : b < s.size :=
  (bucket_eq_some.mp hb).2

section

variable {t : Table σ} {i : ℕ} {s : SequenceIndex σ.entry_size} {r : Except Fault (Option σ.Data)}
  {d : σ.Data} {ds : List σ.Data} {id : ℕ}

def KeysDistinct (t : Table σ) (s : SequenceIndex σ.entry_size) : Prop :=
  ∀ {j j' : ℕ} {x y : σ.Data}, dbTableGetEntry t.toCore j = some x →
    dbTableGetEntry t.toCore j' = some y → s.sequence_key x = s.sequence_key y → j = j'

variable (hix : σ.sequenceIndex i = some s) (hk : Keyed (sequence s).bucket s.sequence_cmp)
  (hI : Indexed (sequence s).bucket (dbTableGetEntry t.toCore) (t.chains i))
  (hdis : KeysDistinct t s)

include hix in
theorem traverseNext_first (hsz : 0 < s.size) :
    dbtableSequenceTraverseNext t i firstKey =
      .ok ((nodesFrom (t.chains i) s.size 0).head?.bind (dbTableGetEntry t.toCore)) := by
  have hsp : nodesFrom (t.chains i) s.size 0 = t.chains i 0 ++ nodesFrom (t.chains i) s.size 1 :=
    nodesFrom_split _ hsz
  have hr : firstKey = firstKey ∨ s.size < s.sequence_index firstKey := .inl rfl
  unfold dbtableSequenceTraverseNext
  rw [hix]
  dsimp only
  rw [if_pos hr, if_neg (Nat.not_le.mpr hsz), hsp]
  cases hch : t.chains i 0 with
  | nil => rfl
  | cons id ids => exact if_pos hr

include hI hdis in
theorem exists_chain_split {id b : ℕ}
    (hd : dbTableGetEntry t.toCore id = some d) (hb : (sequence s).bucket d = some b) :
    ∃ l₁ l₂, t.chains i b = l₁ ++ id :: l₂ ∧ ∀ j ∈ l₁, ∃ x, dbTableGetEntry t.toCore j = some x ∧
      decide (s.sequence_key x = s.sequence_key d) = false := by
  have hme : id ∈ t.chains i b := hI.mem_iff.mpr ⟨d, hd, hb⟩
  obtain ⟨l₁, l₂, hch, hn⟩ := eq_append_cons_of_mem hme
  refine ⟨l₁, l₂, hch, fun j hj => ?_⟩
  have hj' : j ∈ t.chains i b := by
    rw [hch]
    exact mem_append_left _ hj
  obtain ⟨x, hx, -⟩ := hI.mem_iff.mp hj'
  refine ⟨x, hx, decide_eq_false fun hke => ?_⟩
  obtain rfl : j = id := hdis hx hd hke
  exact hn hj

include hix hk hI hdis in
theorem traverseNext_of_key (hd : dbTableGetEntry t.toCore id = some d)
    (hf : s.sequence_key d ≠ firstKey) {pre post : List ℕ}
    (hn : nodesFrom (t.chains i) s.size 0 = pre ++ id :: post) :
    dbtableSequenceTraverseNext t i (s.sequence_key d) =
      .ok (post.head?.bind (dbTableGetEntry t.toCore)) := by
  obtain ⟨b, hb⟩ := isSome_iff_exists.mp (hk.inRange d)
  obtain ⟨hke, hlt⟩ := bucket_eq_some.mp hb
  obtain ⟨l₁, l₂, hch, hsk⟩ := exists_chain_split hI hdis hd hb
  have hp := nodesFrom_cut hI hlt hch hn
  -- The bucket of the key is in range, and the key is not the one that begins an iteration.
  have hr : ¬(s.sequence_key d = firstKey ∨ s.size < s.sequence_index (s.sequence_key d)) := by
    rw [hke]
    rintro (h | h)
    · exact hf h
    · omega
  have hwa : traverseAfter (dbTableGetEntry t.toCore)
      (fun x => s.sequence_key x = s.sequence_key d) (nodesFrom (t.chains i) s.size (b + 1))
      (l₁ ++ id :: l₂) = post.head?.bind (dbTableGetEntry t.toCore) := by
    rw [traverseAfter_append hsk hd (decide_eq_true rfl), hp]
  unfold dbtableSequenceTraverseNext
  rw [hix]
  dsimp only
  rw [if_neg hr, hke, if_neg (Nat.not_le.mpr hlt)]
  cases hn' : t.chains i b with
  | nil => exact absurd (hch.symm.trans hn') (by simp)
  | cons j js =>
    dsimp only
    rw [← hke, if_neg hr, hke, ← hn', hch, hwa]

include hix hk hI hdis in
theorem sequenceHead_of_key (hd : dbTableGetEntry t.toCore id = some d)
    (data : σ.Data) : dbtableSequenceHead t i (s.sequence_key d) data = .ok (some d) := by
  obtain ⟨b, hb⟩ := isSome_iff_exists.mp (hk.inRange d)
  obtain ⟨hke, hlt⟩ := bucket_eq_some.mp hb
  obtain ⟨l₁, l₂, hch, hsk⟩ := exists_chain_split hI hdis hd hb
  unfold dbtableSequenceHead
  rw [hix]
  dsimp only
  rw [hke, if_neg (Nat.not_le.mpr hlt), hch, headWalk_append hsk hd (decide_eq_true rfl)]

/-! ## Iterations -/

include hix hk hI hdis in
theorem sequenceWalk_suffix
    (hf : ∀ {j x}, dbTableGetEntry t.toCore j = some x → s.sequence_key x ≠ firstKey)
    {pre post : List ℕ} (hn : nodesFrom (t.chains i) s.size 0 = pre ++ post) :
    SequenceWalk t i s (.ok (post.head?.bind (dbTableGetEntry t.toCore)))
      (post.filterMap (dbTableGetEntry t.toCore)) := by
  -- By induction on the nodes that are left.
  induction post generalizing pre with
  | nil => exact .done
  | cons id post ih =>
    have hme : id ∈ nodesFrom (t.chains i) s.size 0 := by
      rw [hn]
      exact mem_append_right _ mem_cons_self
    obtain ⟨b, -, hid⟩ := mem_flatMap.mp hme
    obtain ⟨d, hd, -⟩ := hI.mem_iff.mp hid
    have hsp : nodesFrom (t.chains i) s.size 0 = (pre ++ [id]) ++ post := by
      rw [hn, append_assoc, singleton_append]
    have hrs := ih hsp
    rw [← traverseNext_of_key hix hk hI hdis hd (hf hd) hn] at hrs
    rw [head?_cons, bind_some, hd, filterMap_cons_some hd]
    exact .next hrs

theorem SequenceWalk.unique {ds ds' : List σ.Data}
    (h : SequenceWalk t i s r ds) (h' : SequenceWalk t i s r ds') : ds = ds' := by
  induction h generalizing ds' with
  | done => cases h' with | done => rfl
  | next h ih => cases h' with | next h' => rw [ih h']

theorem SequenceWalk.suffix {pre post : List σ.Data} (h : SequenceWalk t i s r (pre ++ d :: post)) :
    SequenceWalk t i s (dbtableSequenceTraverseNext t i (s.sequence_key d)) post := by
  induction pre generalizing r with
  | nil => cases h with | next h => exact h
  | cons a pre ih => cases h with | next h => exact ih h

theorem SequenceWalk.key_notMem {key : ℕ}
    (h : SequenceWalk t i s (dbtableSequenceTraverseNext t i key) ds) :
    key ∉ ds.map s.sequence_key := by
  intro hme
  obtain ⟨x, hx, hke⟩ := mem_map.mp hme
  obtain ⟨pre, post, rfl⟩ := append_of_mem hx
  have hla := h.suffix
  rw [hke] at hla
  have hlen := congrArg length (h.unique hla)
  simp only [length_append, length_cons] at hlen
  omega

theorem SequenceWalk.keys_nodup (h : SequenceWalk t i s r ds) : (ds.map s.sequence_key).Nodup := by
  induction h with
  | done => exact nodup_nil
  | next h ih => exact nodup_cons.mpr ⟨h.key_notMem, ih⟩

/-! ## When an iteration is right -/

theorem keysDistinct_of_nodup {ids : List ℕ} (h : EachOnce (dbTableGetEntry t.toCore) ids ds)
    (hn : (ds.map s.sequence_key).Nodup) : KeysDistinct t s := by
  -- The key of an existing entry stands in the list of keys where its id stands in that of the ids.
  have hke : ∀ {j x}, dbTableGetEntry t.toCore j = some x →
      ∃ k : ℕ, ids[k]? = some j ∧ (ds.map s.sequence_key)[k]? = some (s.sequence_key x) := by
    intro j x hx
    obtain ⟨k, hk⟩ := mem_iff_getElem?.mp ((h.mem_iff j).mpr (by rw [hx, isSome_some]))
    have hd : (ds.map some)[k]? = some (some x) := by
      rw [← h.map_eq, getElem?_map, hk, map_some, hx]
    rw [getElem?_map] at hd
    obtain ⟨x', hx', heq⟩ := map_eq_some_iff.mp hd
    cases heq
    exact ⟨k, hk, by rw [getElem?_map, hx', map_some]⟩
  intro j j' x y hx hy hxy
  obtain ⟨k, hj, hkx⟩ := hke hx
  obtain ⟨k', hj', hky⟩ := hke hy
  have hlt : k < (ds.map s.sequence_key).length := (List.getElem?_eq_some_iff.mp hkx).1
  obtain rfl : k = k' := (getElem?_inj hlt hn).mp (by rw [hkx, hky, hxy])
  exact mem_unique hj hj'

include hk hI in
theorem mem_sequence_nodes :
    id ∈ nodesFrom (t.chains i) s.size 0 ↔ (dbTableGetEntry t.toCore id).isSome = true :=
  mem_nodesFrom hI s.bucket_lt hk.inRange

include hix hk hI hdis in
theorem sequenceWalk_entriesInOrder
    (hf : ∀ {j x}, dbTableGetEntry t.toCore j = some x → s.sequence_key x ≠ firstKey) :
    SequenceWalk t i s (dbtableSequenceTraverseNext t i firstKey) (entriesInOrder t i s) := by
  obtain ⟨b, hb⟩ := isSome_iff_exists.mp (hk.inRange (Bytes.zero σ.entry_size))
  have hsz : 0 < s.size := Nat.zero_lt_of_lt (bucket_eq_some.mp hb).2
  rw [traverseNext_first hix hsz]
  exact sequenceWalk_suffix hix hk hI hdis hf (nil_append _).symm

include hk hI in
theorem mem_keys_entriesInOrder {j : ℕ} {x : σ.Data} (hx : dbTableGetEntry t.toCore j = some x) :
    s.sequence_key x ∈ (entriesInOrder t i s).map s.sequence_key := by
  refine mem_map_of_mem (mem_filterMap.mpr ⟨j, ?_, hx⟩)
  exact (mem_sequence_nodes hk hI).mpr (by rw [hx, isSome_some])

theorem head_eq_of_least {keys : List ℕ} (hlt : keys.Pairwise (· < ·)) {k : ℕ} (hme : k ∈ keys)
    (hla : ∀ k' ∈ keys, k ≤ k') : keys.head? = some k := by
  cases keys with
  | nil => exact absurd hme not_mem_nil
  | cons k₀ keys =>
    rcases mem_cons.mp hme with rfl | hme
    · rfl
    · have hgt : k₀ < k := rel_of_pairwise_cons hlt hme
      have hle : k ≤ k₀ := hla k₀ mem_cons_self
      omega

include hix hk hI in
theorem sequenceHead_of_least (hlt : ((entriesInOrder t i s).map s.sequence_key).Pairwise (· < ·))
    (hdis : KeysDistinct t s) (hd : dbTableGetEntry t.toCore id = some d)
    (hla : ∀ j x, dbTableGetEntry t.toCore j = some x → s.sequence_key d ≤ s.sequence_key x)
    (data : σ.Data) :
    dbtableSequenceHead t i (s.sequence_key d) data = dbtableSequenceTraverseNext t i firstKey := by
  obtain ⟨b, hb⟩ := isSome_iff_exists.mp (hk.inRange d)
  have hsz : 0 < s.size := Nat.zero_lt_of_lt (bucket_eq_some.mp hb).2
  have hh := head_eq_of_least hlt (mem_keys_entriesInOrder hk hI hd) (by
    intro k' hk'
    obtain ⟨x, hx, rfl⟩ := mem_map.mp hk'
    obtain ⟨j, -, hj⟩ := mem_filterMap.mp hx
    exact hla j x hj)
  rw [sequenceHead_of_key hix hk hI hdis hd data, traverseNext_first hix hsz]
  refine congrArg Except.ok ?_
  -- The first node is that of the entry with the least key, since the keys are distinct.
  unfold entriesInOrder at hh
  cases hn : nodesFrom (t.chains i) s.size 0 with
  | nil => simp [hn] at hh
  | cons id₀ ids =>
    have hid₀ := (mem_sequence_nodes hk hI).mp (hn ▸ mem_cons_self : id₀ ∈ _)
    obtain ⟨d₀, hd₀⟩ := isSome_iff_exists.mp hid₀
    rw [hn, filterMap_cons_some hd₀, map_cons, head?_cons] at hh
    obtain rfl : id₀ = id := hdis hd₀ hd (some.inj hh)
    rw [head?_cons, bind_some, hd]

end

def newKeysAt (i : ℕ) (ix : Index σ.entry_size) (c : Core σ) (site : Option (ℕ × ℕ))
    (eff : Effect σ.entry_size) : Prop :=
  ix.NewKey (dbTableGetEntry c) eff ∧ OwnBucketAt i ix site eff

/-- Iteration through a sequence index of a table that was reached by writes of new keys into their
own buckets is right if and only if the keys increase along the nodes of the index and none of them
is `-1`. -/
theorem sequenceIteration_iff {t : Table σ} {i : ℕ} {s : SequenceIndex σ.entry_size}
    (hix : σ.sequenceIndex i = some s) (hk : Keyed (sequence s).bucket s.sequence_cmp)
    (ht : TableReachable (newKeysAt i (.sequence s)) t) :
    SequenceIterates t i s ↔
      ((entriesInOrder t i s).map s.sequence_key).Pairwise (· < ·) ∧
        firstKey ∉ (entriesInOrder t i s).map s.sequence_key := by
  have hpos := Schema.sequenceIndex_eq_some.mp hix
  obtain ⟨-, hI, -⟩ := ht.indexedAt hpos (Or.inr hk) fun _ h => h
  constructor
  · rintro ⟨⟨ds, hwalk, ⟨ids, honce⟩, hsorted⟩, -⟩
    have hnodup := hwalk.keys_nodup
    have hdis : KeysDistinct t s := keysDistinct_of_nodup honce hnodup
    have hfirst : ∀ {j x}, dbTableGetEntry t.toCore j = some x → s.sequence_key x ≠ firstKey := by
      intro j x hx hkey
      refine hwalk.key_notMem (mem_map.mpr ⟨x, ?_, hkey⟩)
      have hj : some x ∈ ids.map (dbTableGetEntry t.toCore) :=
        mem_map.mpr ⟨j, (honce.mem_iff j).mpr (by rw [hx, isSome_some]), hx⟩
      rw [honce.map_eq] at hj
      obtain ⟨x', hx', heq⟩ := mem_map.mp hj
      rwa [← some.inj heq]
    -- The iteration goes along the nodes, so what it returned is what stands there.
    obtain rfl := hwalk.unique (sequenceWalk_entriesInOrder hix hk hI hdis hfirst)
    exact ⟨(hsorted.and hnodup).imp fun h => lt_of_le_of_ne h.1 h.2, hwalk.key_notMem⟩
  · rintro ⟨hlt, hnot⟩
    have honce := eachOnce_nodes hI s.bucket_lt hk.inRange
    have hdis : KeysDistinct t s := keysDistinct_of_nodup honce (hlt.imp ne_of_lt)
    have hfirst : ∀ {j x}, dbTableGetEntry t.toCore j = some x → s.sequence_key x ≠ firstKey := by
      intro j x hx hkey
      exact hnot (hkey ▸ mem_keys_entriesInOrder hk hI hx)
    have hwalk := sequenceWalk_entriesInOrder hix hk hI hdis hfirst
    have hall : ReturnsAllInOrder t s (entriesInOrder t i s) := ⟨⟨_, honce⟩, hlt.imp le_of_lt⟩
    refine ⟨⟨_, hwalk, hall⟩, fun id d data hd hleast => ⟨_, ?_, hall⟩⟩
    rw [sequenceHead_of_least hix hk hI hlt hdis hd hleast data]
    exact hwalk

/-! ## Two entries with one key -/

def sequenceOne : Table sequenceTable :=
  (sequenceInsert 0 1 (twoBytes 1 7) : LocalOp sequenceTable.entry_size).after quietEnv
    (createDbtable sequenceTable)

def sequenceTwo (k : UInt8) : Table sequenceTable :=
  (sequenceInsert 0 k.toNat (twoBytes k 8) : LocalOp sequenceTable.entry_size).after quietEnv
    sequenceOne

theorem tableStep_sequenceOne : TableStep (createDbtable sequenceTable) (some (0, 1))
    (.insert 0 (twoBytes 1 7)) sequenceOne := by
  have hrun : (sequenceInsert 0 1 (twoBytes 1 7) : LocalOp sequenceTable.entry_size).run
      quietEnv (createDbtable sequenceTable) = .ok (sequenceOne, 0) := rfl
  exact .localOp hrun

theorem reachable_sequenceTwo {k : UInt8} (hk : k = 1 ∨ k = 2) :
    TableReachable (newKeysAt 0 (.sequence byteSequence)) (sequenceTwo k) := by
  have hst : TableStep sequenceOne (some (0, k.toNat)) (.insert 1 (twoBytes k 8))
      (sequenceTwo k) := by
    rcases hk with rfl | rfl
    · have hrun : (sequenceInsert 0 1 (twoBytes 1 8) : LocalOp sequenceTable.entry_size).run
          quietEnv sequenceOne = .ok (sequenceTwo 1, 0) := rfl
      exact .localOp hrun
    · have hrun : (sequenceInsert 0 2 (twoBytes 2 8) : LocalOp sequenceTable.entry_size).run
          quietEnv sequenceOne = .ok (sequenceTwo 2, 0) := rfl
      exact .localOp hrun
  have hf : newKeysAt 0 (.sequence byteSequence) (Core.create sequenceTable) (some (0, 1))
      (.insert 0 (twoBytes 1 7)) := by
    refine ⟨fun j x hj => ?_, fun b hb => ?_⟩
    · exact absurd (hj.symm.trans (getEntry_create sequenceTable j)) (by simp)
    · obtain rfl : 1 = b := congrArg Prod.snd (some.inj hb)
      rfl
  have hsn : newKeysAt 0 (.sequence byteSequence) sequenceOne.toCore (some (0, k.toNat))
      (.insert 1 (twoBytes k 8)) := by
    refine ⟨fun j x hj hcmp => ?_, fun b hb => ?_⟩
    · rw [tableStep_sequenceOne.eq_of_getEntry hj] at hcmp
      rcases hk with rfl | rfl <;> cases hcmp
    · obtain rfl : k.toNat = b := congrArg Prod.snd (some.inj hb)
      rcases hk with rfl | rfl <;> rfl
  exact (Relation.ReflTransGen.single ⟨_, _, tableStep_sequenceOne, hf⟩).tail ⟨_, _, hst, hsn⟩

set_option maxRecDepth 4000 in
/-- With the keys `1` and `2` an iteration is right. -/
theorem sequenceIteration_iff_two : SequenceIterates (sequenceTwo 2) 0 byteSequence := by
  have hkeys : [1, 2].Pairwise (· < ·) ∧ firstKey ∉ [1, 2] := by decide
  exact (sequenceIteration_iff rfl byteSequence_keyed (reachable_sequenceTwo (.inr rfl))).mpr hkeys

/-- Two entries with the key `1`. The first call returns the first of them, the second call the
other, and so does every call after it: the iteration does not end. -/
theorem sequenceIteration_repeats :
    TableReachable (newKeysAt 0 (.sequence byteSequence)) (sequenceTwo 1) ∧
      ∀ ds, ¬SequenceWalk (sequenceTwo 1) 0 byteSequence
        (dbtableSequenceTraverseNext (sequenceTwo 1) 0 firstKey) ds := by
  refine ⟨reachable_sequenceTwo (.inl rfl), fun ds hwalk => ?_⟩
  have hfirst : dbtableSequenceTraverseNext (sequenceTwo 1) 0 firstKey =
      .ok (some (twoBytes 1 7)) := rfl
  have hnext : dbtableSequenceTraverseNext (sequenceTwo 1) 0
      (byteSequence.sequence_key (twoBytes 1 7)) = .ok (some (twoBytes 1 8)) := rfl
  have hnodup := hwalk.keys_nodup
  rw [hfirst] at hwalk
  cases hwalk with
  | next h =>
    rw [hnext] at h
    cases h with
    | next h => exact (nodup_cons.mp hnodup).1 mem_cons_self

end Chanos.Database

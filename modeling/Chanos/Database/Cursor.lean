import Chanos.Database.Indexing
import Chanos.Lib.Cursor

/-!
# Iteration through a hash index

`dbtable_hash_head` returns the first entry of a hash index and `dbtable_hash_next` the one after a
given entry. The given entry is a copy that is found again by its key, so the table may change
between two steps.
-/

namespace Chanos.Database

open Lib List Option Function Relation

variable {σ : Schema}

def nodesFrom (chains : ℕ → List ℕ) (size key : ℕ) : List ℕ :=
  (List.range' key (size - key)).flatMap chains

def readAll {n : ℕ} (get : ℕ → Option (Bytes n)) : Bytes n → List ℕ → Bytes n
  | buf, [] => buf
  | buf, x :: xs => readAll get ((get x).getD buf) xs

def scanRest {n : ℕ} (get : ℕ → Option (Bytes n)) (p : Bytes n → Bool) :
    Bytes n → List ℕ → Option (Bytes n × List ℕ)
  | _, [] => none
  | buf, x :: xs =>
    let buf := (get x).getD buf
    if p buf then some (buf, xs) else scanRest get p buf xs

section

variable (env : Env) (t : Table σ) (i : ℕ)

def dbtableHashNext (data : Option σ.Data) (filter : Option (Option σ.Data → σ.Data → Bool)) :
    Option σ.Data :=
  match σ.hashIndex i with
  | none => none
  | some h =>
    match h.hash_key with
    | none => none
    | some hash_key =>
      let get := dbTableGetEntry t.toCore
      let buf := env.malloc _ .caller
      let first (buf : σ.Data) (nodes : List ℕ) : Option σ.Data :=
        (scan get (fun x => filter.all fun f => f data x) buf nodes).map Prod.snd
      match data with
      | none => first buf (nodesFrom (t.chains i) h.size 0)
      | some d =>
        if h.size ≤ hash_key d then first buf (nodesFrom (t.chains i) h.size 0)
        else
          let chain := t.chains i (hash_key d)
          let rest := nodesFrom (t.chains i) h.size (hash_key d + 1)
          match scanRest get (h.hash_cmp d) buf chain with
          | some (buf, nodes) => first buf (nodes ++ rest)
          | none => first (readAll get buf chain) rest

def dbtableHashHead (indata : Option σ.Data) (outdata : σ.Data)
    (filter : Option (σ.Data → σ.Data → Bool)) : Option σ.Data :=
  match σ.hashIndex i with
  | none => none
  | some h =>
    if dbtableHashCount t i = 0 then none
    else
      let get := dbTableGetEntry t.toCore
      let accept (x : σ.Data) : Bool := filter.all fun f => indata.all fun d => f d x
      (scan get accept (env.malloc _ .caller) (nodesFrom (t.chains i) h.size 0)).map fun p =>
        (get p.1).getD outdata

end

/-! ## The nodes of an index -/

section

variable {chains chains' : ℕ → List ℕ} {size b : ℕ}

theorem nodesFrom_succ {size b : ℕ} (hb : b < size) :
    nodesFrom chains size b = chains b ++ nodesFrom chains size (b + 1) := by
  obtain ⟨k, hk⟩ : ∃ k, size - b = k + 1 := ⟨size - b - 1, by omega⟩
  have hrs : size - (b + 1) = k := by omega
  rw [nodesFrom, nodesFrom, hk, hrs, range'_succ, flatMap_cons]

theorem nodesFrom_split (chains : ℕ → List ℕ) (hb : b < size) :
    nodesFrom chains size 0 =
      (range b).flatMap chains ++ (chains b ++ nodesFrom chains size (b + 1)) := by
  have hr : range' 0 (size - 0) = range b ++ range' b (size - b) := by
    rw [range_eq_range', ← Nat.add_sub_cancel' hb.le, Nat.sub_zero, ← range'_append_1, Nat.zero_add,
      Nat.add_sub_cancel_left]
  rw [← nodesFrom_succ hb, nodesFrom, hr, flatMap_append, nodesFrom]

theorem flatMap_update_of_notMem {l : List ℕ} {c : List ℕ} (hb : b ∉ l) :
    l.flatMap (update chains b c) = l.flatMap chains := by
  refine flatMap_congr fun j hj => update_of_ne ?_ _ _
  rintro rfl
  exact hb hj

theorem addedTo_nodesFrom {id : ℕ} {l l' : List ℕ} (hb : b < size) (h : AddedTo id l l') :
    AddedTo id (nodesFrom (update chains b l) size 0) (nodesFrom (update chains b l') size 0) := by
  have hbe : b ∉ range b := fun hme => absurd (mem_range.mp hme) (lt_irrefl b)
  have ha : b ∉ range' (b + 1) (size - (b + 1)) := fun hme => by
    have := (mem_range'_1.mp hme).1
    omega
  obtain ⟨l₁, l₂, rfl, rfl⟩ := h
  refine ⟨(range b).flatMap chains ++ l₁, l₂ ++ nodesFrom chains size (b + 1), ?_, ?_⟩
  all_goals
    rw [nodesFrom_split _ hb, update_self, flatMap_update_of_notMem hbe, nodesFrom,
      flatMap_update_of_notMem ha, nodesFrom]
    simp only [append_assoc, cons_append]

theorem nodesFrom_added {n id : ℕ} {bucket : Bytes n → Option ℕ} {d : Bytes n}
    (h : NodeAdded bucket id d chains chains') (hlt : ∀ d b, bucket d = some b → b < size) :
    AddedTo id (nodesFrom chains size 0) (nodesFrom chains' size 0) := by
  obtain ⟨b, l, hb, hl, rfl⟩ := h
  have ha : AddedTo id (nodesFrom (update chains b _) size 0) _ :=
    addedTo_nodesFrom (hlt d b hb) hl
  rwa [update_eq_self] at ha

section

variable {n : ℕ} {bucket : Bytes n → Option ℕ} {get : ℕ → Option (Bytes n)}

section

variable (h : Indexed bucket get chains)
include h

theorem nodup_chain (b : ℕ) : (chains b).Nodup := by
  refine nodup_iff_count_le_one.mpr fun id => ?_
  rw [h b id]
  split_ifs <;> omega

theorem chain_unique {b b' id : ℕ} (hid : id ∈ chains b) (hid' : id ∈ chains b') : b = b' := by
  -- A node belongs to the bucket of the data of its entry.
  obtain ⟨d, hd, hb⟩ := h.mem_iff.mp hid
  obtain ⟨d', hd', hb'⟩ := h.mem_iff.mp hid'
  obtain rfl : d = d' := mem_unique hd hd'
  exact mem_unique hb hb'

theorem nodup_nodesFrom (size key : ℕ) : (nodesFrom chains size key).Nodup := by
  refine nodup_flatMap.mpr ⟨fun b _ => nodup_chain h b, ?_⟩
  have hlt := sortedLT_iff_pairwise.mp (sortedLT_range' key (size - key) one_ne_zero)
  refine hlt.imp ?_
  intro b b' hlt id hid hid'
  exact hlt.ne (chain_unique h hid hid')

theorem mem_nodesFrom (hlt : ∀ d b, bucket d = some b → b < size)
    (hin : ∀ d, (bucket d).isSome = true) {id : ℕ} :
    id ∈ nodesFrom chains size 0 ↔ (get id).isSome = true := by
  rw [nodesFrom, mem_flatMap]
  constructor
  · rintro ⟨b, -, hid⟩
    obtain ⟨d, hd, -⟩ := h.mem_iff.mp hid
    rw [hd, isSome_some]
  · intro hid
    obtain ⟨d, hd⟩ := isSome_iff_exists.mp hid
    obtain ⟨b, hb⟩ := isSome_iff_exists.mp (hin d)
    have hsz := hlt d b hb
    exact ⟨b, mem_range'_1.mpr ⟨Nat.zero_le b, by omega⟩, h.mem_iff.mpr ⟨d, hd, hb⟩⟩

end

theorem map_get_eq {ids : List ℕ} (ha : ∀ id ∈ ids, (get id).isSome = true) :
    ids.map get = (ids.filterMap get).map some := by
  induction ids with
  | nil => rfl
  | cons id ids ih =>
    obtain ⟨d, hd⟩ := isSome_iff_exists.mp (ha id mem_cons_self)
    rw [map_cons, filterMap_cons_some hd, map_cons, hd, ih fun j hj => ha j (mem_cons_of_mem _ hj)]

/-- `ds` has the data of every entry, once. -/
structure EachOnce (get : ℕ → Option (Bytes n)) (ids : List ℕ) (ds : List (Bytes n)) : Prop where
  nodup : ids.Nodup
  mem_iff : ∀ id, id ∈ ids ↔ (get id).isSome = true
  map_eq : ids.map get = ds.map some

theorem eachOnce_nodes (h : Indexed bucket get chains) (hlt : ∀ d b, bucket d = some b → b < size)
    (hin : ∀ d, (bucket d).isSome = true) :
    EachOnce get (nodesFrom chains size 0) ((nodesFrom chains size 0).filterMap get) where
  nodup := nodup_nodesFrom h size 0
  mem_iff := fun _ => mem_nodesFrom h hlt hin
  map_eq := map_get_eq fun _ hid => (mem_nodesFrom h hlt hin).mp hid

theorem nodesFrom_cut (h : Indexed bucket get chains) (hb : b < size) {id : ℕ}
    {l₁ l₂ pre post : List ℕ} (hch : chains b = l₁ ++ id :: l₂)
    (hn : nodesFrom chains size 0 = pre ++ id :: post) :
    l₂ ++ nodesFrom chains size (b + 1) = post := by
  have hnd : (pre ++ [id] ++ post).Nodup := by
    rw [append_assoc, singleton_append, ← hn]
    exact nodup_nodesFrom h size 0
  have heq : pre ++ [id] ++ post =
      ((range b).flatMap chains ++ l₁) ++ [id] ++ (l₂ ++ nodesFrom chains size (b + 1)) := by
    calc pre ++ [id] ++ post = nodesFrom chains size 0 := by
          rw [hn, append_assoc, singleton_append]
      _ = _ := by
          rw [nodesFrom_split chains hb, hch]
          simp only [append_assoc, cons_append, nil_append]
  have hp := Iterating.pre_eq hnd heq (by rw [getLast?_concat, getLast?_concat])
  rw [hp] at heq
  exact (append_cancel_left heq).symm

end

end

/-! ## What the functions return -/

section

variable {n : ℕ} {get : ℕ → Option (Bytes n)} {buf : Bytes n}

theorem scan_true (l : List ℕ) :
    scan get (fun _ => true) buf l = l.head?.map fun id => (id, (get id).getD buf) := by
  cases l <;> rfl

theorem scanRest_of_scan {p : Bytes n → Bool} {id : ℕ} {x : Bytes n} {l : List ℕ}
    (h : scan get p buf l = some (id, x)) :
    ∃ l₁ l₂, l = l₁ ++ id :: l₂ ∧ scanRest get p buf l = some (x, l₂) := by
  induction l generalizing buf with
  | nil => cases h
  | cons y ys ih =>
    rw [scan] at h
    rw [scanRest]
    split_ifs at h ⊢ with hp
    · obtain ⟨rfl, rfl⟩ : y = id ∧ (get y).getD buf = x := by simpa using h
      exact ⟨[], ys, rfl, rfl⟩
    · obtain ⟨l₁, l₂, rfl, hrs⟩ := ih h
      exact ⟨y :: l₁, l₂, rfl, hrs⟩

end

theorem HashIndex.bucket_lt {n : ℕ} (h : HashIndex n) (d : Bytes n) (b : ℕ)
    (hb : h.bucket d = some b) : b < h.size := by
  exact of_decide_eq_true (filter_eq_some_iff.mp hb).2

theorem HashIndex.hash_key_of_bucket {n : ℕ} {h : HashIndex n} {d : Bytes n} {b : ℕ}
    (hb : h.bucket d = some b) : ∃ key, h.hash_key = some key ∧ key d = b := by
  obtain ⟨hma, -⟩ := filter_eq_some_iff.mp hb
  exact map_eq_some_iff.mp hma

section

variable {t : Table σ} {i : ℕ} {h : HashIndex σ.entry_size}

def Table.nodes (t : Table σ) (i : ℕ) (h : HashIndex σ.entry_size) : List ℕ :=
  nodesFrom (t.chains i) h.size 0

theorem head_getD_eq {get : ℕ → Option σ.Data} {nodes : List ℕ} (buf : σ.Data)
    (ha : ∀ id ∈ nodes, (get id).isSome = true) :
    (nodes.head?.map fun id => (get id).getD buf) = nodes.head?.bind get := by
  cases nodes with
  | nil => rfl
  | cons a l =>
    obtain ⟨x, hx⟩ := isSome_iff_exists.mp (ha a mem_cons_self)
    rw [head?_cons, map_some, bind_some, hx, getD_some]

section

variable (env : Env) (hix : σ.hashIndex i = some h) (hk : Keyed h.bucket h.hash_cmp)
include hix hk

theorem hashHead_eq (ho : Occupancy t.toCore)
    (hI : Indexed h.bucket (dbTableGetEntry t.toCore) (t.chains i)) (indata : Option σ.Data)
    (outdata : σ.Data) :
    dbtableHashHead env t i indata outdata none =
      (t.nodes i h).head?.bind (dbTableGetEntry t.toCore) := by
  have ha : ∀ id ∈ t.nodes i h, (dbTableGetEntry t.toCore id).isSome = true :=
    fun id hid => (mem_nodesFrom hI h.bucket_lt hk.inRange).mp hid
  unfold dbtableHashHead
  rw [hix]
  dsimp only
  split_ifs with hc
  · -- The count of used ids is zero, so there is no entry.
    have hu : t.entry_use_num.toNat = 0 := by
      have hN := σ.entry_num_lt
      have hu := ho.use_num
      have hc' : dbtableHashCount t i = t.entry_use_num.toNat := by
        unfold dbtableHashCount
        rw [hix]
        exact signed32_of_lt (by omega)
      exact_mod_cast hc'.symm.trans hc
    have hno : ∀ id, dbTableGetEntry t.toCore id = none := by
      intro id
      by_contra hne
      obtain ⟨d, hd⟩ := ne_none_iff_exists'.mp hne
      have hp : 0 < t.entry_use_num.toNat := by
        rw [ho.use_num_eq_card, Finset.card_pos]
        exact ⟨id, Finset.mem_filter.mpr
          ⟨Finset.mem_range.mpr (ho.lt_of_get hd), ho.exist_of_get hd⟩⟩
      omega
    cases hn : t.nodes i h with
    | nil => rfl
    | cons a l => rw [head?_cons, bind_some, hno]
  · have ht : (fun x : σ.Data => (none : Option (σ.Data → σ.Data → Bool)).all fun f =>
        indata.all fun d => f d x) = fun _ => true := rfl
    rw [ht, scan_true, Option.map_map]
    exact head_getD_eq outdata ha

theorem hashNext_eq (hI : IndexedAt t.toCore i (.hash h)) {id : ℕ} {d : σ.Data}
    (hd : dbTableGetEntry t.toCore id = some d) {pre post : List ℕ}
    (hn : t.nodes i h = pre ++ id :: post) :
    dbtableHashNext env t i (some d) none = post.head?.bind (dbTableGetEntry t.toCore) := by
  obtain ⟨b, hb⟩ := isSome_iff_exists.mp (hk.inRange d)
  obtain ⟨key, hke, rfl⟩ := HashIndex.hash_key_of_bucket hb
  have hlt : key d < h.size := h.bucket_lt d _ hb
  -- The walk along the bucket stops at the node of the entry, and nowhere before it.
  have hsc : scan (dbTableGetEntry t.toCore) (h.hash_cmp d) (env.malloc _ .caller)
      (t.chains i (key d)) = some (id, d) :=
    (hI.indexed.scan_eq_some_iff hk hI.distinct hb).mpr ⟨hd, hk.refl d⟩
  obtain ⟨l₁, l₂, hch, hrs⟩ := scanRest_of_scan hsc
  have hp : l₂ ++ nodesFrom (t.chains i) h.size (key d + 1) = post :=
    nodesFrom_cut hI.indexed hlt hch hn
  have ha : ∀ j ∈ post, (dbTableGetEntry t.toCore j).isSome = true := by
    intro j hj
    refine (mem_nodesFrom hI.indexed h.bucket_lt hk.inRange).mp ?_
    change j ∈ t.nodes i h
    rw [hn]
    exact mem_append_right _ (mem_cons_of_mem _ hj)
  unfold dbtableHashNext
  rw [hix]
  dsimp only
  rw [hke]
  dsimp only
  rw [if_neg (Nat.not_le.mpr hlt), hrs]
  dsimp only
  have ht : (fun x : σ.Data => (none : Option (Option σ.Data → σ.Data → Bool)).all fun f =>
      f (some d) x) = fun _ => true := rfl
  rw [ht, hp, scan_true, Option.map_map]
  exact head_getD_eq d ha

end

end

/-! ## Iterations -/

/-- An iteration through a hash index. -/
structure Iteration (σ : Schema) where
  table : Table σ
  cursor : Option σ.Data
  seen : Set ℕ
  present : Set ℕ

open Iteration

namespace Iteration

def start (t : Table σ) : Iteration σ where
  table := t
  cursor := none
  seen := ∅
  present := {id | (dbTableGetEntry t.toCore id).isSome = true}

/-- The next call: `dbtable_hash_head` to begin with, and then `dbtable_hash_next` with the entry
returned last. -/
def call (it : Iteration σ) (env : Env) (i : ℕ) (outdata : σ.Data) : Option σ.Data :=
  match it.cursor with
  | none => dbtableHashHead env it.table i none outdata none
  | some d => dbtableHashNext env it.table i (some d) none

def Returns (i : ℕ) (it it' : Iteration σ) : Prop :=
  ∃ env outdata d id, it.call env i outdata = some d ∧ dbTableGetEntry it.table.toCore id = some d ∧
    it' = { it with cursor := some d, seen := insert id it.seen }

end Iteration

def Effect.deleted {n : ℕ} : Effect n → Set ℕ
  | .delete entry_id => {entry_id}
  | .none | .insert _ _ | .update _ _ => ∅

def Effect.Between {n : ℕ} (h : HashIndex n) (get : ℕ → Option (Bytes n)) (cursor : Option (Bytes n)) :
    Effect n → Prop
  | .none => True
  | .insert _ data => ∀ id x, get id = some x → h.hash_cmp data x = false
  | .update _ _ => False
  | .delete entry_id => get entry_id ≠ cursor

inductive IterationStep (i : ℕ) (h : HashIndex σ.entry_size) :
    Iteration σ → Iteration σ → Prop
  | returns {it it' : Iteration σ} (hca : it.Returns i it') : IterationStep i h it it'
  | write {it : Iteration σ} {site : Option (ℕ × ℕ)} {eff : Effect σ.entry_size} {t' : Table σ}
      (hs : TableStep it.table site eff t')
      (hbetween : eff.Between h (dbTableGetEntry it.table.toCore) it.cursor) :
    IterationStep i h it
      { it with table := t', seen := it.seen \ eff.deleted, present := it.present \ eff.deleted }

/-- The invariant of an iteration: the index is right, and the entry returned last is that of the
node at which the cursor stands. -/
structure Iteration.Sound (i : ℕ) (h : HashIndex σ.entry_size) (it : Iteration σ) : Prop where
  occupancy : Occupancy it.table.toCore
  indexedAt : IndexedAt it.table.toCore i (.hash h)
  iterating : ∃ node : Option ℕ,
    (node.map (dbTableGetEntry it.table.toCore) = it.cursor.map some) ∧
      Iterating (it.table.nodes i h) node it.seen it.present

def newKeysIn (h : HashIndex σ.entry_size) (c : Core σ) (_ : Option (ℕ × ℕ))
    (eff : Effect σ.entry_size) : Prop :=
  (Index.hash h).NewKey (dbTableGetEntry c) eff

theorem TableReachable.indexedAt {i : ℕ} {ix : Index σ.entry_size} {t : Table σ}
    {ok : Core σ → Option (ℕ × ℕ) → Effect σ.entry_size → Prop}
    (hix : σ.index_list[i]? = some ix) (hw : ix.Works)
    (hok : ∀ {t t' : Table σ} {site eff}, TableStep t site eff t' → ok t.toCore site eff →
      ix.NewKey (dbTableGetEntry t.toCore) eff ∧ OwnBucketAt i ix site eff)
    (ht : TableReachable ok t) : Occupancy t.toCore ∧ IndexedAt t.toCore i ix := by
  refine ht.invariant (fun c => IndexedAt c i ix) (indexedAt_create σ i ix) ?_
  intro t t' site eff ho hI hke hs
  obtain ⟨hn, how⟩ := hok hs hke
  exact (hs.coreStep ho).indexedAt ho hix hw hI hn how

section

variable {i : ℕ} {h : HashIndex σ.entry_size} {it it' : Iteration σ}

theorem Iteration.sound_start (hk : Keyed h.bucket h.hash_cmp) {t : Table σ}
    (ho : Occupancy t.toCore) (hI : IndexedAt t.toCore i (.hash h)) : (start t).Sound i h := by
  have hp : (start t).present = {id | id ∈ t.nodes i h} :=
    Set.ext fun id => (mem_nodesFrom hI.indexed h.bucket_lt hk.inRange).symm
  refine ⟨ho, hI, none, rfl, ?_⟩
  rw [hp]
  exact Iterating.start _

theorem IndexedAt.eq_of_get {c : Core σ} {ix : Index σ.entry_size} (hI : IndexedAt c i ix)
    (hr : ∀ d, ix.cmp d d = true) {j j' : ℕ} {d : σ.Data} (hj : dbTableGetEntry c j = some d)
    (hj' : dbTableGetEntry c j' = some d) : j = j' :=
  hI.distinct hj hj' (hr d)

theorem Effect.Between.newKey {n : ℕ} {h : HashIndex n} {get : ℕ → Option (Bytes n)}
    {cursor : Option (Bytes n)} {eff : Effect n} (hb : eff.Between h get cursor) :
    (Index.hash h).NewKey get eff := by
  cases eff with
  | none | delete => trivial
  | insert entry_id data =>
    intro j x hj hcmp
    exact absurd ((hb j x hj).symm.trans hcmp) Bool.false_ne_true
  | update => exact absurd hb id

variable (hix : σ.hashIndex i = some h) (hk : Keyed h.bucket h.hash_cmp)
include hix hk

theorem Iteration.Sound.call_eq (hs : it.Sound i h) :
    ∃ pre post node, it.table.nodes i h = pre ++ post ∧ pre.getLast? = node ∧
      Iterating (it.table.nodes i h) node it.seen it.present ∧
      ∀ env outdata, it.call env i outdata = post.head?.bind (dbTableGetEntry it.table.toCore) := by
  obtain ⟨node, hn, hi⟩ := hs.iterating
  obtain ⟨pre, post, hsp, hla, -⟩ := id hi
  refine ⟨pre, post, node, hsp, hla, hi, fun env outdata => ?_⟩
  unfold call
  cases hc : it.cursor with
  | none =>
    -- Before the first call the cursor stands before the first node.
    obtain rfl : node = none := by simpa [hc] using hn
    obtain rfl : pre = [] := getLast?_eq_none_iff.mp hla
    have hh := hashHead_eq env hix hk hs.occupancy hs.indexedAt.indexed none outdata
    rwa [hsp, nil_append] at hh
  | some d =>
    rw [hc] at hn
    obtain ⟨id, rfl, hd⟩ := map_eq_some_iff.mp hn
    obtain ⟨pre', rfl⟩ := getLast?_eq_some_iff.mp hla
    rw [append_assoc, singleton_append] at hsp
    exact hashNext_eq env hix hk hs.indexedAt hd hsp

theorem Iteration.Sound.next (hs : it.Sound i h) {env : Env} {outdata d : σ.Data}
    (hca : it.call env i outdata = some d) :
    ∃ id, dbTableGetEntry it.table.toCore id = some d ∧ id ∉ it.seen ∧
      Sound i h { it with cursor := some d, seen := insert id it.seen } := by
  obtain ⟨pre, post, node, hsp, hla, hi, heq⟩ := hs.call_eq hix hk
  rw [heq] at hca
  obtain ⟨id, hh, hd⟩ := bind_eq_some_iff.mp hca
  obtain ⟨post', rfl⟩ := head?_eq_some_iff.mp hh
  have hnd : (it.table.nodes i h).Nodup := nodup_nodesFrom hs.indexedAt.indexed _ _
  rw [hsp] at hi hnd
  obtain ⟨hn, hi'⟩ := hi.next hnd hla
  refine ⟨id, hd, hn, hs.occupancy, hs.indexedAt, some id, congrArg some hd, ?_⟩
  change Iterating (it.table.nodes i h) _ _ _
  rw [hsp]
  exact hi'

theorem Iteration.Returns.sound (hr : it.Returns i it') (hs : it.Sound i h) :
    it'.Sound i h ∧ ∃ id ∉ it.seen, it'.seen = insert id it.seen ∧ it'.table = it.table := by
  obtain ⟨env, outdata, d, id, hca, hid, rfl⟩ := hr
  obtain ⟨id', hid', hn, hsd⟩ := hs.next hix hk hca
  obtain rfl : id = id' := hs.indexedAt.eq_of_get hk.refl hid hid'
  exact ⟨hsd, id, hn, rfl, rfl⟩

theorem Iteration.Sound.write (hs : it.Sound i h) {site : Option (ℕ × ℕ)}
    {eff : Effect σ.entry_size} {t' : Table σ} (hst : TableStep it.table site eff t')
    (hb : eff.Between h (dbTableGetEntry it.table.toCore) it.cursor) :
    Sound i h
      { it with table := t', seen := it.seen \ eff.deleted,
                present := it.present \ eff.deleted } := by
  have hp := Schema.hashIndex_eq_some.mp hix
  have hco := hst.coreStep hs.occupancy
  have hget := hco.get_eq hs.occupancy
  have hv := hco.effect_valid hs.occupancy
  have ho := hst.ownBucketAt hix
  have hwo : (Index.hash h).Works := Or.inr hk
  have hf := hco.follows hs.occupancy hp hwo hs.indexedAt hb.newKey ho
  obtain ⟨node, hn, hi⟩ := hs.iterating
  have hat : ∀ id, node = some id → dbTableGetEntry it.table.toCore id = it.cursor ∧
      ∃ d, it.cursor = some d := by
    rintro id rfl
    obtain ⟨d, hc, hd⟩ := map_eq_some_iff.mp hn.symm
    exact ⟨hd.symm.trans hc.symm, d, hc⟩
  refine ⟨hco.occupancy hs.occupancy,
    hco.indexedAt hs.occupancy hp hwo hs.indexedAt hb.newKey ho, node, ?_, ?_⟩
  · -- The entry at the cursor is not written.
    rw [← hn]
    cases node with
    | none => rfl
    | some id =>
      obtain ⟨hid, d, hd⟩ := hat id rfl
      refine congrArg some ?_
      rw [hget]
      cases eff with
      | none => rfl
      | insert entry_id data =>
        refine update_of_ne ?_ _ _
        rintro rfl
        exact absurd ((hid.trans hd).symm.trans hv.2) (by simp)
      | update => exact absurd hb (fun h => h)
      | delete entry_id =>
        refine update_of_ne ?_ _ _
        rintro rfl
        exact hb hid
  · cases eff with
    | none =>
      have hns : t'.nodes i h = it.table.nodes i h := congrArg (nodesFrom · h.size 0) hf
      simpa only [Effect.deleted, Set.sdiff_empty, hns] using hi
    | insert entry_id data =>
      have ha : NodeAdded h.bucket entry_id data (it.table.chains i) (t'.chains i) :=
        hf.resolve_left (by simp)
      have hns : AddedTo entry_id (it.table.nodes i h) (t'.nodes i h) :=
        nodesFrom_added ha h.bucket_lt
      simpa only [Effect.deleted, Set.sdiff_empty] using hi.add hns
    | update => exact absurd hb (fun h => h)
    | delete entry_id =>
      obtain ⟨old, hol, hr⟩ := hf
      have hre : NodeRemoved h.bucket entry_id old (it.table.chains i) (t'.chains i) :=
        hr.resolve_left (by simp)
      refine hi.remove (nodesFrom_added hre.added h.bucket_lt) ?_
      exact fun hc => hb (hat entry_id hc).1

theorem Iteration.sound_of_run {t : Table σ} (ht : TableReachable (newKeysIn h) t)
    (hrun : ReflTransGen (IterationStep i h) (start t) it) : it.Sound i h := by
  obtain ⟨ho, hI⟩ := ht.indexedAt (Schema.hashIndex_eq_some.mp hix) (Or.inr hk)
    fun hs hke => ⟨hke, hs.ownBucketAt hix⟩
  induction hrun with
  | refl => exact sound_start hk ho hI
  | tail _ hst ih =>
    cases hst with
    | returns hca => exact (hca.sound hix hk ih).1
    | write hs hbetween => exact ih.write hix hk hs hbetween

theorem Iteration.Sound.length_le {its : ℕ → Iteration σ} {n : ℕ}
    (hs : (its 0).Sound i h) (hcl : ∀ k < n, (its k).Returns i (its (k + 1))) :
    n ≤ σ.entry_num := by
  -- By induction on the number of calls: the invariant holds, and `n` ids have been returned.
  have hcn : ∀ k ≤ n, (its k).Sound i h ∧
      ∃ ids : Finset ℕ, ids.card = k ∧ ∀ id ∈ ids, id ∈ (its k).seen := by
    intro k hkn
    induction k with
    | zero => exact ⟨hs, ∅, rfl, fun id hid => absurd hid (Finset.notMem_empty id)⟩
    | succ k ih =>
      obtain ⟨hsd, ids, hc, hi⟩ := ih (by omega)
      obtain ⟨hsd', id, hn, hse, -⟩ := (hcl k (by omega)).sound hix hk hsd
      have hid : id ∉ ids := fun hme => hn (hi id hme)
      refine ⟨hsd', insert id ids, by rw [Finset.card_insert_of_notMem hid, hc], ?_⟩
      intro j hj
      rw [hse]
      exact (Finset.mem_insert.mp hj).imp (fun hj => hj) (hi j)
  obtain ⟨hsd, ids, hc, hi⟩ := hcn n le_rfl
  -- All of them are ids of the table.
  have hsu : ids ⊆ Finset.range σ.entry_num := by
    intro id hid
    obtain ⟨node, -, pre, post, hsp, -, hse, -⟩ := hsd.iterating
    have hme : id ∈ (its n).table.nodes i h := by
      rw [hsp]
      exact mem_append_left _ (hse id (hi id hid))
    obtain ⟨d, hd⟩ := isSome_iff_exists.mp
      ((mem_nodesFrom hsd.indexedAt.indexed h.bucket_lt hk.inRange).mp hme)
    exact Finset.mem_range.mpr (hsd.occupancy.lt_of_get hd)
  calc n = ids.card := hc.symm
    _ ≤ (Finset.range σ.entry_num).card := Finset.card_le_card hsu
    _ = σ.entry_num := Finset.card_range _

end

/-- Iteration through a hash index, with entries with new keys inserted and entries other than the
one returned last deleted between two calls. No entry is returned twice; when a call returns no
entry, every entry that has been there since the beginning was returned; and calls alone come to
that end. -/
theorem hashIteration_complete {i : ℕ} {h : HashIndex σ.entry_size} {t : Table σ}
    {it : Iteration σ} (hix : σ.hashIndex i = some h) (hk : Keyed h.bucket h.hash_cmp)
    (ht : TableReachable (newKeysIn h) t)
    (hrun : ReflTransGen (IterationStep i h) (start t) it) :
    (∀ env outdata d, it.call env i outdata = some d →
      ∃ id, dbTableGetEntry it.table.toCore id = some d ∧ id ∉ it.seen) ∧
    (∀ env outdata, it.call env i outdata = none → it.present ⊆ it.seen) ∧
    ∀ (n : ℕ) (its : ℕ → Iteration σ), its 0 = it →
      (∀ k < n, (its k).Returns i (its (k + 1))) → n ≤ σ.entry_num := by
  have hs := sound_of_run hix hk ht hrun
  refine ⟨fun env outdata d hcall => ?_, fun env outdata hcall => ?_, fun n its hzero hcalls => ?_⟩
  · obtain ⟨id, hid, hnew, -⟩ := hs.next hix hk hcall
    exact ⟨id, hid, hnew⟩
  · obtain ⟨pre, post, node, hsplit, hlast, hiter, heq⟩ := hs.call_eq hix hk
    rw [heq] at hcall
    -- There is no node behind the cursor, since every node has an entry.
    obtain rfl : post = [] := by
      cases post with
      | nil => rfl
      | cons id post =>
        have hmem : id ∈ it.table.nodes i h := by
          rw [hsplit]
          exact mem_append_right _ mem_cons_self
        have hsome := (mem_nodesFrom hs.indexedAt.indexed h.bucket_lt hk.inRange).mp hmem
        rw [head?_cons, bind_some] at hcall
        rw [hcall] at hsome
        exact absurd hsome Bool.false_ne_true
    rw [append_nil] at hsplit
    exact hiter.subset_of_end (nodup_nodesFrom hs.indexedAt.indexed _ _) (hsplit ▸ hlast)
  · subst hzero
    exact hs.length_le hix hk hcalls

theorem newKeysIn_create (h : HashIndex σ.entry_size) (site : Option (ℕ × ℕ))
    (eff : Effect σ.entry_size) : newKeysIn h (Core.create σ) site eff := by
  have hget := getEntry_create σ
  cases eff with
  | none | delete => trivial
  | insert | update =>
    intro j x hj
    rw [hget] at hj
    simp at hj

def twoEntries (v : UInt8) : Table twoKeys :=
  (LocalOp.hashInsert 0 (twoBytes 2 v) : LocalOp twoKeys.entry_size).after quietEnv oneEntry

theorem tableStep_oneEntry :
    TableStep (createDbtable twoKeys) (some (0, 1)) (.insert 0 (twoBytes 1 7)) oneEntry := by
  have hrun : (LocalOp.hashInsert 0 (twoBytes 1 7) : LocalOp twoKeys.entry_size).run quietEnv
      (createDbtable twoKeys) = .ok (oneEntry, 0) := rfl
  exact .localOp hrun

theorem tableStep_twoEntries (v : UInt8) :
    TableStep oneEntry (some (0, 2)) (.insert 1 (twoBytes 2 v)) (twoEntries v) := by
  have hrun : (LocalOp.hashInsert 0 (twoBytes 2 v) : LocalOp twoKeys.entry_size).run quietEnv
      oneEntry = .ok (twoEntries v, 0) := rfl
  exact .localOp hrun

theorem TableStep.eq_of_getEntry {site : Option (ℕ × ℕ)} {entry_id id : ℕ} {d x : σ.Data}
    {t : Table σ} (h : TableStep (createDbtable σ) site (.insert entry_id d) t)
    (hx : dbTableGetEntry t.toCore id = some x) : x = d := by
  have ho := occupancy_create σ
  have hent := congrFun ((h.coreStep ho).get_eq ho) id
  rw [hx, Effect.apply, update_apply] at hent
  split_ifs at hent
  · exact some.inj hent
  · exact absurd (hent.trans (getEntry_create σ id)) (by simp)

set_option maxRecDepth 4000 in
/-- An iteration returns one entry, another one is inserted and returned too, and the end comes. -/
theorem hashIteration_complete_insert :
    ∃ it : Iteration twoKeys, it.table = twoEntries 8 ∧
      it.call quietEnv 0 (twoBytes 0 0) = none ∧ 0 ∈ it.present ∧ it.present ⊆ it.seen := by
  have hreach : TableReachable (newKeysIn (byteHash 2 0)) oneEntry :=
    .single ⟨_, _, tableStep_oneEntry, newKeysIn_create _ _ _⟩
  let it₁ : Iteration twoKeys :=
    { start oneEntry with cursor := some (twoBytes 1 7), seen := insert 0 ∅ }
  let it₂ : Iteration twoKeys :=
    { it₁ with table := twoEntries 8, seen := it₁.seen \ ∅, present := it₁.present \ ∅ }
  let it₃ : Iteration twoKeys :=
    { it₂ with cursor := some (twoBytes 2 8), seen := insert 1 it₂.seen }
  have hfirst : IterationStep 0 (byteHash 2 0) (start oneEntry) it₁ :=
    .returns ⟨quietEnv, twoBytes 0 0, twoBytes 1 7, 0, rfl, rfl, rfl⟩
  have hinsert : IterationStep 0 (byteHash 2 0) it₁ it₂ := by
    have hstep : TableStep it₁.table _ _ _ := tableStep_twoEntries 8
    refine .write hstep fun id x hx => ?_
    rw [tableStep_oneEntry.eq_of_getEntry hx]
    rfl
  have hsecond : IterationStep 0 (byteHash 2 0) it₂ it₃ :=
    .returns ⟨quietEnv, twoBytes 0 0, twoBytes 2 8, 1, rfl, rfl, rfl⟩
  have hkeyed : Keyed (byteHash 2 0).bucket (byteHash 2 0).hash_cmp :=
    (byteHash_works 2 0).resolve_left (by simp)
  have hcomplete := hashIteration_complete rfl hkeyed hreach
    (((ReflTransGen.single hfirst).tail hinsert).tail hsecond)
  have hend : it₃.call quietEnv 0 (twoBytes 0 0) = none := rfl
  exact ⟨it₃, rfl, hend, ⟨rfl, Set.notMem_empty 0⟩, hcomplete.2.1 quietEnv (twoBytes 0 0) hend⟩

set_option maxRecDepth 4000 in
/-- Two entries are inserted through the first index with the same second byte. The second index has
a node only for one of them, so an iteration through it, with nothing happening in between, ends
without having returned the other. -/
theorem hashIteration_misses :
    ∃ it : Iteration twoKeys,
      TableReachable (fun _ _ _ => True) (twoEntries 7) ∧
      ReflTransGen (Returns 1) (start (twoEntries 7)) it ∧
      it.call quietEnv 1 (twoBytes 0 0) = none ∧ 1 ∈ it.present ∧ 1 ∉ it.seen := by
  refine ⟨{ start (twoEntries 7) with
      cursor := some (twoBytes 1 7), seen := insert 0 ∅ }, ?_, .single ?_, rfl, rfl, ?_⟩
  · exact (ReflTransGen.single ⟨_, _, tableStep_oneEntry, trivial⟩).tail
      ⟨_, _, tableStep_twoEntries 7, trivial⟩
  · exact ⟨quietEnv, twoBytes 0 0, twoBytes 1 7, 0, rfl, rfl, rfl⟩
  · simp

end Chanos.Database

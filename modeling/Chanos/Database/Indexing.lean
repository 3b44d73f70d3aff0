import Chanos.Database.System

/-!
# The indexes of a table at work

Hash and sequence indexes are kept up by comparing data: a node is inserted unless some node of the
chain compares equal, and the first one that compares equal is removed. That is right as long as no
two entries compare equal in any index, which is the invariant `Indexing`.
-/

namespace Chanos.Database

open Lib List Option
variable {site : Option (ℕ × ℕ)} {env : Env} {i : ℕ}

section

variable {n : ℕ} {get : ℕ → Option (Bytes n)} {chains chains' : ℕ → List ℕ} {entry_id : ℕ}
  {old data cmpdata : Bytes n} {ix : Index n}

section

variable {bucket : Bytes n → Option ℕ} {cmp : Bytes n → Bytes n → Bool}

theorem internalInsert_added (hk : Compared bucket cmp) (h : Indexed bucket get chains)
    (hid : get entry_id = none) (hu : ∀ j x, get j = some x → cmp data x = true → j = entry_id) :
    NodeAdded bucket entry_id data chains
      (internalInsert (Function.update get entry_id (some data)) cmpdata (bucket data) (cmp data)
        entry_id chains) := by
  obtain ⟨b, hb⟩ := isSome_iff_exists.mp (hk.inRange data)
  -- The chain has no node of the new entry, so the walk sees the old ones only.
  have hn : ∀ j ∈ chains b, Function.update get entry_id (some data) j = get j := by
    intro j hj
    obtain ⟨x, hx, -⟩ := h.mem_iff.mp hj
    refine Function.update_of_ne ?_ _ _
    rintro rfl
    rw [hid] at hx
    simp at hx
  have hsc :
      scan (Function.update get entry_id (some data)) (cmp data) cmpdata (chains b) = none := by
    rw [scan_congr hn]
    cases hs : scan get (cmp data) cmpdata (chains b) with
    | none => rfl
    | some p =>
      obtain ⟨hx, hcmp, -⟩ := h.of_scan hs
      obtain rfl := hu p.1 p.2 hx hcmp
      rw [hid] at hx
      simp at hx
  unfold internalInsert
  rw [hb]
  dsimp only
  rw [hsc]
  exact ⟨b, _, hb, addedTo_concat entry_id _, rfl⟩

theorem internalDelete_removed {equal : Bytes n → Bool} (hk : Compared bucket cmp)
    (h : Indexed bucket get chains) (hd : Distinct cmp get) (hid : get entry_id = some old)
    (he : equal = cmp old) :
    NodeRemoved bucket entry_id old chains
      (internalDelete get cmpdata (bucket old) equal chains) := by
  obtain ⟨b, hb⟩ := isSome_iff_exists.mp (hk.inRange old)
  have hsc : scan get (cmp old) cmpdata (chains b) = some (entry_id, old) :=
    h.scan_self hk hd hid hb
  rw [hb, he]
  exact ⟨b, _, hb, unlink_addedTo hsc, rfl⟩

theorem distinct_update_none (hd : Distinct cmp get) :
    Distinct cmp (Function.update get entry_id none) := by
  intro i j a b hi hj ha
  rw [Function.update_apply] at hi hj
  split_ifs at hi hj
  exact hd hi hj ha

theorem distinct_update_some (hk : Compared bucket cmp) (hd : Distinct cmp get)
    (hu : ∀ j x, get j = some x → cmp data x = true → j = entry_id) :
    Distinct cmp (Function.update get entry_id (some data)) := by
  intro i j a b hi hj ha
  rw [Function.update_apply] at hi hj
  split_ifs at hi hj with hi' hj' hj'
  · rw [hi', hj']
  · cases hi
    rw [hi', hu j b hj ha]
  · cases hj
    rw [hj', hu i a hi (hk.symm ha)]
  · exact hd hi hj ha

end

def Index.Works (ix : Index n) : Prop := ix = .array ∨ Keyed ix.bucket ix.cmp

def Index.Compares (ix : Index n) : Prop := ix = .array ∨ Compared ix.bucket ix.cmp

theorem Index.Works.compares (h : ix.Works) : ix.Compares :=
  h.imp_right Keyed.compared

theorem array_indexed {get' : ℕ → Option (Bytes n)}
    (h : Indexed (Index.array : Index n).bucket get chains) :
    Indexed (Index.array : Index n).bucket get' chains := by
  intro b j
  have hno : ∀ o : Option (Bytes n), o.bind (Index.array : Index n).bucket = none := by
    intro o
    cases o <;> rfl
  rw [h b j, hno, hno]

namespace Index

def Adds (ix : Index n) (entry_id : ℕ) (data : Bytes n) (chains chains' : ℕ → List ℕ) :
    Prop :=
  (ix = .array ∧ chains' = chains) ∨ NodeAdded ix.bucket entry_id data chains chains'

def Removes (ix : Index n) (entry_id : ℕ) (data : Bytes n) (chains chains' : ℕ → List ℕ) :
    Prop :=
  (ix = .array ∧ chains' = chains) ∨ NodeRemoved ix.bucket entry_id data chains chains'

/-- What a write to the table does to the chains of an index that is right: each entry keeps its
node, and the entry that is written gets, loses or exchanges its own. -/
def Follows (ix : Index n) (get : ℕ → Option (Bytes n)) (chains : ℕ → List ℕ) :
    Effect n → (ℕ → List ℕ) → Prop
  | .none, chains' => chains' = chains
  | .insert entry_id data, chains' => ix.Adds entry_id data chains chains'
  | .update entry_id data, chains' =>
    ∃ old, get entry_id = some old ∧
      ((chains' = chains ∧ ix.bucket data = ix.bucket old) ∨
        ∃ chains₁, ix.Removes entry_id old chains chains₁ ∧ ix.Adds entry_id data chains₁ chains')
  | .delete entry_id, chains' =>
    ∃ old, get entry_id = some old ∧ ix.Removes entry_id old chains chains'

theorem Adds.indexed (h : ix.Adds entry_id data chains chains')
    (hI : Indexed ix.bucket get chains) (hid : get entry_id = none) :
    Indexed ix.bucket (Function.update get entry_id (some data)) chains' := by
  obtain ⟨rfl, rfl⟩ | ha := h
  · exact array_indexed hI
  · exact hI.insert hid ha

theorem Removes.indexed (h : ix.Removes entry_id old chains chains')
    (hI : Indexed ix.bucket get chains) (hid : get entry_id = some old) :
    Indexed ix.bucket (Function.update get entry_id none) chains' := by
  obtain ⟨rfl, rfl⟩ | hr := h
  · exact array_indexed hI
  · exact hI.remove hid hr

theorem Follows.indexed {eff : Effect n} {entry_num : ℕ}
    (h : ix.Follows get chains eff chains') (hv : eff.Valid entry_num get)
    (hI : Indexed ix.bucket get chains) : Indexed ix.bucket (eff.apply get) chains' := by
  cases eff with
  | none =>
    obtain rfl : chains' = chains := h
    exact hI
  | insert entry_id data => exact Adds.indexed h hI hv.2
  | update entry_id data =>
    obtain ⟨old, ho, ⟨rfl, hb⟩ | ⟨chains₁, hr, ha⟩⟩ := h
    · exact hI.rewrite ho hb
    -- The old node goes first, and the new one is that of a new entry.
    have hg := hr.indexed hI ho
    rw [Effect.apply, ← Function.update_idem (a := entry_id) none (some data) get]
    exact ha.indexed hg (Function.update_self ..)
  | delete entry_id =>
    obtain ⟨old, ho, hr⟩ := h
    exact hr.indexed hI ho

section

variable (hk : ix.Compares) (h : Indexed ix.bucket get chains)
include hk h

theorem indexInsert_adds (hid : get entry_id = none)
    (hu : ∀ j x, get j = some x → ix.cmp data x = true → j = entry_id) :
    ix.Adds entry_id data chains
      (ix.indexInsert (Function.update get entry_id (some data)) cmpdata data entry_id chains) := by
  cases ix with
  | array => exact .inl ⟨rfl, rfl⟩
  | hash hash | sequence s =>
    obtain hk | hk := hk
    · simp at hk
    · exact .inr (internalInsert_added hk h hid hu)

theorem indexDelete_removes (hd : Distinct ix.cmp get) (hid : get entry_id = some old) :
    ix.Removes entry_id old chains (ix.indexDelete get cmpdata old chains) := by
  cases ix with
  | array => exact .inl ⟨rfl, rfl⟩
  | hash hash =>
    obtain hk | hk := hk
    · simp at hk
    · refine .inr (internalDelete_removed hk h hd hid ?_)
      -- The comparison is made in the other order.
      funext x
      exact Bool.eq_iff_iff.mpr ⟨hk.symm, hk.symm⟩
  | sequence s =>
    obtain hk | hk := hk
    · simp at hk
    · exact .inr (internalDelete_removed hk h hd hid rfl)

theorem reindex_adds (hd : Distinct ix.cmp get) (hid : get entry_id = some old)
    (hu : ∀ j x, get j = some x → ix.cmp data x = true → j = entry_id) (buf buf' : Bytes n) :
    ix.Adds entry_id data (ix.indexDelete get buf old chains)
      (ix.indexInsert (Function.update get entry_id (some data)) buf' data entry_id
        (ix.indexDelete get buf old chains)) := by
  have hg : Indexed ix.bucket (Function.update get entry_id none)
      (ix.indexDelete get buf old chains) :=
    (indexDelete_removes hk h hd hid).indexed h hid
  rw [← Function.update_idem (a := entry_id) none (some data) get]
  refine indexInsert_adds hk hg (Function.update_self ..) ?_
  intro j x hj hcmp
  rw [Function.update_apply] at hj
  split_ifs at hj
  exact hu j x hj hcmp

end

theorem distinct_update (hk : ix.Compares) (hd : Distinct ix.cmp get)
    (hu : ∀ j x, get j = some x → ix.cmp data x = true → j = entry_id) :
    Distinct ix.cmp (Function.update get entry_id (some data)) := by
  obtain rfl | hk := hk
  · intro i j a b _ _ ha
    exact absurd ha Bool.false_ne_true
  · exact distinct_update_some hk hd hu

def NewKey (ix : Index n) (get : ℕ → Option (Bytes n)) : Effect n → Prop
  | .insert entry_id data | .update entry_id data =>
    ∀ j x, get j = some x → ix.cmp data x = true → j = entry_id
  | .none | .delete _ => True

theorem NewKey.distinct {eff : Effect n} (h : ix.NewKey get eff)
    (hk : ix.Compares) (hd : Distinct ix.cmp get) : Distinct ix.cmp (eff.apply get) := by
  cases eff with
  | none => exact hd
  | insert entry_id data | update entry_id data => exact distinct_update hk hd h
  | delete entry_id => exact distinct_update_none hd

end Index

end

/-! ## One index of a table -/

variable {σ : Schema}

/-- The index at a position is right: it holds exactly one node for each existing entry, in the
bucket of its data, and no two existing entries compare equal in it. -/
structure IndexedAt (c : Core σ) (i : ℕ) (ix : Index σ.entry_size) : Prop where
  indexed : Indexed ix.bucket (dbTableGetEntry c) (c.chains i)
  distinct : Distinct ix.cmp (dbTableGetEntry c)

def OwnBucketAt (i : ℕ) (ix : Index σ.entry_size) (site : Option (ℕ × ℕ)) :
    Effect σ.entry_size → Prop
  | .insert _ data => ∀ b, site = some (i, b) → ix.bucket data = some b
  | .none | .update _ _ | .delete _ => True

section

variable {c c₁ : Core σ} {site : Option (ℕ × ℕ)} {orig_index : Option ℕ} {i entry_id : ℕ}
  {ix : Index σ.entry_size} {data : σ.Data} {old : σ.Data}

theorem Linked.chains_of_ne (hlk : Linked c entry_id site orig_index c₁)
    (hi : orig_index ≠ some i) : c₁.chains i = c.chains i := by
  cases hlk with
  | off harr => rfl
  | on hl => exact Core.setChain_chains_of_ne _ _ _ fun h => hi (by rw [h])

theorem Unlinked.chains_of_ne (hunl : Unlinked c entry_id orig_index c₁)
    (hi : orig_index ≠ some i) : c₁.chains i = c.chains i := by
  cases hunl with
  | off harr => rfl
  | on hl => exact Core.setChain_chains_of_ne _ _ _ fun h => hi (by rw [h])

theorem Linked.adds (hlk : Linked c entry_id site orig_index c₁) (hi : orig_index = some i)
    (hix : σ.index_list[i]? = some ix) (ho : OwnBucketAt i ix site (.insert entry_id data)) :
    ix.Adds entry_id data (c.chains i) (c₁.chains i) := by
  cases hlk with
  | off harr => exact .inl ⟨some.inj (hix.symm.trans (harr i hi)), rfl⟩
  | @on i' b l hl =>
    obtain rfl : i' = i := some.inj hi
    exact .inr ⟨b, l, ho b rfl, hl, Core.setChain_chains_self ..⟩

theorem Unlinked.removes (hunl : Unlinked c entry_id orig_index c₁) (hi : orig_index = some i)
    (hix : σ.index_list[i]? = some ix) (h : Indexed ix.bucket (dbTableGetEntry c) (c.chains i))
    (ho : dbTableGetEntry c entry_id = some old) :
    ix.Removes entry_id old (c.chains i) (c₁.chains i) := by
  cases hunl with
  | off harr => exact .inl ⟨some.inj (hix.symm.trans (harr i hi)), rfl⟩
  | @on i' b l hl =>
    obtain rfl : i' = i := some.inj hi
    obtain ⟨d, hd, hb⟩ := h.mem_iff.mp (hl.perm.mem_iff.mpr mem_cons_self)
    obtain rfl : d = old := mem_unique hd ho
    exact .inr ⟨b, l, hb, hl, Core.setChain_chains_self ..⟩

section

variable (malloc : MallocSite → σ.Data) (hix : σ.index_list[i]? = some ix)
  (hi : orig_index ≠ some i) (hc : ix.Compares) (h : IndexedAt c i ix)
include hix hi hc h

theorem Core.insertEntry_follows
    (hget : dbTableGetEntry c₁ = dbTableGetEntry c) (hcs : c₁.chains i = c.chains i)
    (hlt : entry_id < σ.entry_num) (hno : dbTableGetEntry c entry_id = none)
    (hn : ix.NewKey (dbTableGetEntry c) (.insert entry_id data)) :
    ix.Follows (dbTableGetEntry c) (c.chains i) (.insert entry_id data)
      (((c₁.take entry_id).insertEntry malloc entry_id data orig_index).chains i) := by
  have ht : dbTableGetEntry (c₁.take entry_id) = dbTableGetEntry c :=
    (getEntry_congr rfl).trans hget
  have hsm : (c₁.take entry_id).chains i = c.chains i := hcs
  rw [Core.insertEntry_chains _ _ _ _ _ hlt hix hi, ht, hsm]
  exact Index.indexInsert_adds hc h.indexed hno hn

theorem Core.updateEntry_follows (hoc : Occupancy c) (ho : dbTableGetEntry c entry_id = some old)
    (hn : ix.NewKey (dbTableGetEntry c) (.update entry_id data)) :
    ix.Follows (dbTableGetEntry c) (c.chains i) (.update entry_id data)
      ((c.updateEntry malloc entry_id old data orig_index).chains i) := by
  refine ⟨old, ho, .inr ?_⟩
  rw [Core.updateEntry_chains _ _ _ _ _ _ (hoc.lt_of_get ho) (hoc.exist_of_get ho) hix hi]
  exact ⟨_, Index.indexDelete_removes hc h.indexed h.distinct ho,
    Index.reindex_adds hc h.indexed h.distinct ho hn _ _⟩

theorem Core.deleteEntry_follows
    (hget : dbTableGetEntry c₁ = dbTableGetEntry c) (hcs : c₁.chains i = c.chains i)
    (ho : dbTableGetEntry c entry_id = some old) :
    ix.Follows (dbTableGetEntry c) (c.chains i) (.delete entry_id)
      (((c₁.freeEntryIndex malloc entry_id orig_index).deleteEntry entry_id).chains i) := by
  refine ⟨old, ho, ?_⟩
  rw [Core.deleteEntry_chains,
    Core.freeEntryIndex_chains c₁ malloc entry_id old orig_index (by rw [hget, ho]) hix hi, hget,
    hcs]
  exact Index.indexDelete_removes hc h.indexed h.distinct ho

end

end

namespace CoreStep

variable {c c' : Core σ} {site : Option (ℕ × ℕ)} {eff : Effect σ.entry_size} {i : ℕ}
  {ix : Index σ.entry_size} (hs : CoreStep c site eff c') (hoc : Occupancy c)
  (hix : σ.index_list[i]? = some ix) (hw : ix.Works) (h : IndexedAt c i ix)
  (hn : ix.NewKey (dbTableGetEntry c) eff) (how : OwnBucketAt i ix site eff)
include hs hoc hix hw h hn how

theorem follows : ix.Follows (dbTableGetEntry c) (c.chains i) eff (c'.chains i) := by
  have hv := hs.effect_valid hoc
  cases hs with
  | skip => exact rfl
  | @dropNode i' b entry_id l hno hl =>
    by_cases hi : i = i'
    · -- A right index has no node without an entry.
      subst hi
      obtain ⟨d, hd, -⟩ := h.indexed.mem_iff.mp (hl.perm.mem_iff.mpr mem_cons_self)
      rw [hno] at hd
      simp at hd
    · exact Core.setChain_chains_of_ne _ _ _ hi
  | @insert orig_index entry_id data c₁ malloc hfr hlk =>
    obtain ⟨hlt, hno⟩ := hv
    by_cases hi : orig_index = some i
    · rw [Core.insertEntry_chains_orig _ _ _ _ _ hi]
      exact hlk.adds hi hix how
    · exact Core.insertEntry_follows malloc hix hi hw.compares h (getEntry_congr hlk.store.1)
        (hlk.chains_of_ne hi) hlt hno hn
  | @update orig_index entry_id old data malloc ho horig =>
    by_cases hi : orig_index = some i
    · -- The node stays where it is, since the new data compares equal to the old one.
      rw [Core.updateEntry_chains_orig _ _ _ _ _ _ hi]
      refine ⟨old, ho, .inl ⟨rfl, ?_⟩⟩
      obtain rfl | hcmp := horig i ix hi hix
      · rfl
      · obtain rfl | hk := hw
        · rfl
        · exact hk.bucket_eq hcmp
    · exact Core.updateEntry_follows malloc hix hi hw.compares h hoc ho hn
  | @delete orig_index entry_id old c₁ malloc ho hunl =>
    by_cases hi : orig_index = some i
    · refine ⟨old, ho, ?_⟩
      rw [Core.deleteEntry_chains, Core.freeEntryIndex_chains_orig _ _ _ _ hi]
      exact hunl.removes hi hix h.indexed ho
    · exact Core.deleteEntry_follows malloc hix hi hw.compares h (getEntry_congr hunl.store.1)
        (hunl.chains_of_ne hi) ho

theorem indexedAt : IndexedAt c' i ix := by
  have hget := hs.get_eq hoc
  refine ⟨?_, by rw [hget]; exact hn.distinct hw.compares h.distinct⟩
  rw [hget]
  exact (hs.follows hoc hix hw h hn how).indexed (hs.effect_valid hoc) h.indexed

end CoreStep

def Schema.Works (σ : Schema) : Prop := ∀ ix ∈ σ.index_list, ix.Works

/-- Each index holds exactly one node for each existing entry, in the bucket of its data, and no two
existing entries compare equal in it. -/
structure Indexing (c : Core σ) : Prop where
  indexed : ∀ i ix, σ.index_list[i]? = some ix → Indexed ix.bucket (dbTableGetEntry c) (c.chains i)
  distinct : ∀ ix ∈ σ.index_list, Distinct ix.cmp (dbTableGetEntry c)

def UniqueKeys (c : Core σ) : Effect σ.entry_size → Prop
  | .insert entry_id data | .update entry_id data =>
    ∀ ix ∈ σ.index_list, ∀ j x, dbTableGetEntry c j = some x → ix.cmp data x = true → j = entry_id
  | .none | .delete _ => True

def OwnBucket (σ : Schema) (site : Option (ℕ × ℕ)) : Effect σ.entry_size → Prop
  | .insert _ data =>
    ∀ i b ix, site = some (i, b) → σ.index_list[i]? = some ix → ix.bucket data = some b
  | .none | .update _ _ | .delete _ => True

section

variable {eff : Effect σ.entry_size} {ix : Index σ.entry_size}

theorem UniqueKeys.newKey {c : Core σ}
    (h : UniqueKeys c eff) (hix : ix ∈ σ.index_list) : ix.NewKey (dbTableGetEntry c) eff := by
  cases eff with
  | insert | update => exact h ix hix
  | none | delete => trivial

theorem OwnBucket.at
    (h : OwnBucket σ site eff) (hix : σ.index_list[i]? = some ix) : OwnBucketAt i ix site eff := by
  cases eff with
  | insert => exact fun b hsi => h i b ix hsi hix
  | none | update | delete => trivial

end

theorem Indexing.at {c : Core σ} (h : Indexing c) {ix : Index σ.entry_size}
    (hix : σ.index_list[i]? = some ix) : IndexedAt c i ix :=
  ⟨h.indexed i ix hix, h.distinct ix (mem_of_getElem? hix)⟩

theorem indexedAt_create (σ : Schema) (i : ℕ) (ix : Index σ.entry_size) :
    IndexedAt (Core.create σ) i ix := by
  have hget := getEntry_create σ
  refine ⟨.empty hget fun _ => rfl, fun i j a b hi => ?_⟩
  rw [hget] at hi
  simp at hi

theorem indexing_create (σ : Schema) : Indexing (Core.create σ) :=
  ⟨fun i ix _ => (indexedAt_create σ i ix).indexed, fun ix _ => (indexedAt_create σ 0 ix).distinct⟩

theorem CoreStep.indexing {c c' : Core σ} {eff : Effect σ.entry_size}
    (hs : CoreStep c site eff c') (ho : Occupancy c) (hw : σ.Works) (h : Indexing c)
    (hu : UniqueKeys c eff) (how : OwnBucket σ site eff) : Indexing c' := by
  have ha : ∀ i ix, σ.index_list[i]? = some ix → IndexedAt c' i ix := by
    intro i ix hix
    have hme := mem_of_getElem? hix
    exact hs.indexedAt ho hix (hw ix hme) (h.at hix) (hu.newKey hme) (how.at hix)
  refine ⟨fun i ix hix => (ha i ix hix).indexed, fun ix hme => ?_⟩
  obtain ⟨i, hix⟩ := mem_iff_getElem?.mp hme
  exact (ha i ix hix).distinct

/-! ## Over whole runs -/

/-- A write brings no key twice, and its call names the bucket of the data. -/
def keysUnique : Condition := fun σ c site eff => UniqueKeys c eff ∧ OwnBucket σ site eff

def LocalOp.SequenceKeyed (σ : Schema) : LocalOp σ.entry_size → Prop
  | sequenceInsert i sequence_index data | sequenceUpdate i sequence_index data =>
    ∀ s, σ.sequenceIndex i = some s → s.sequence_key data = sequence_index
  | _ => True

theorem chainInsertEffect_insert {t : Table σ} {data d : σ.Data} {found : Option (ℕ × σ.Data)}
    {entry_id : ℕ} (h : chainInsertEffect t data found = .insert entry_id d) : d = data := by
  unfold chainInsertEffect rewriteEffect insertEffect at h
  split at h
  · split_ifs at h
  · split at h
    · exact (Effect.insert.inj h).2.symm
    · simp at h

section

variable {t : Table σ} {data : σ.Data}

theorem chainInsert_ownBucket {i b : ℕ}
    {found : Option (ℕ × σ.Data)}
    (h : ∀ ix, σ.index_list[i]? = some ix → ix.bucket data = some b) :
    OwnBucket σ (some (i, b)) (chainInsertEffect t data found) := by
  cases he : chainInsertEffect t data found with
  | insert entry_id d =>
    obtain rfl := chainInsertEffect_insert he
    intro i' b' ix hsi hix
    cases hsi
    exact h ix hix
  | none | update | delete => trivial

theorem hashInsert_ownBucket
    {list_prev : Option (σ.Data → σ.Data → Bool)} :
    OwnBucket σ ((σ.hashIndex i).bind fun h => (h.bucket data).map fun b => (i, b))
      (hashInsertEffect env t i data list_prev) := by
  unfold hashInsertEffect
  cases hix : σ.hashIndex i with
  | none => trivial
  | some h =>
    rw [Option.bind_some]
    dsimp only
    cases hb : h.bucket data with
    | none => trivial
    | some b =>
      refine chainInsert_ownBucket fun ix hix' => ?_
      obtain rfl := some.inj ((Schema.hashIndex_eq_some.mp hix).symm.trans hix')
      exact hb

theorem sequenceInsert_ownBucket {i sequence_index : ℕ}
    (hke : ∀ s, σ.sequenceIndex i = some s → s.sequence_key data = sequence_index) :
    OwnBucket σ ((σ.sequenceIndex i).bind fun s => (s.bucketAt sequence_index).map fun b => (i, b))
      (sequenceInsertEffect env t i data sequence_index) := by
  unfold sequenceInsertEffect
  cases hix : σ.sequenceIndex i with
  | none => trivial
  | some s =>
    rw [Option.bind_some]
    dsimp only
    cases hb : s.bucketAt sequence_index with
    | none => trivial
    | some b =>
      refine chainInsert_ownBucket fun ix hix' => ?_
      obtain rfl := some.inj ((Schema.sequenceIndex_eq_some.mp hix).symm.trans hix')
      change s.bucketAt (s.sequence_key data) = some b
      rw [hke s hix, hb]

end

theorem LocalOp.ownBucket {t : Table σ} (op : LocalOp σ.entry_size)
    (hke : op.SequenceKeyed σ) : OwnBucket σ (op.site σ) (op.effect env t) := by
  -- A step that comes through no chain has no bucket to go to.
  have hno : ∀ eff : Effect σ.entry_size, OwnBucket σ none eff := by
    intro eff
    cases eff with
    | insert => exact nofun
    | none | update | delete => trivial
  have hd : ∀ (site : Option (ℕ × ℕ)) (id : ℕ), OwnBucket σ site (deleteEffect t.toCore id) := by
    intro site id
    unfold deleteEffect
    split_ifs <;> trivial
  cases op with
  | hashInsert i data | hashInsertSeq i data list_prev => exact hashInsert_ownBucket
  | hashDelete i data =>
    rw [effect, hashDeleteEffect]
    unfold chainDeleteEffect
    repeat' split
    all_goals first | trivial | exact hd _ _
  | hashUpdate i data =>
    rw [effect]
    split
    · trivial
    · exact hashInsert_ownBucket
  | sequenceInsert i sequence_index data => exact sequenceInsert_ownBucket hke
  | sequenceDelete i sequence_index data ret_data =>
    rw [effect, sequenceDeleteEffect]
    unfold chainDeleteEffect
    dsimp only
    repeat' split
    all_goals first | trivial | exact hd _ _
  | sequenceUpdate i sequence_index data =>
    rw [effect]
    split
    · trivial
    · exact sequenceInsert_ownBucket hke
  | arrayInsert | arrayInsertByid | arrayInsertAfter | arrayDelete | arrayUpdate => exact hno _

theorem TableStep.ownBucketAt {t t' : Table σ} {eff : Effect σ.entry_size}
    {h : HashIndex σ.entry_size} (hs : TableStep t site eff t')
    (hix : σ.hashIndex i = some h) : OwnBucketAt i (.hash h) site eff := by
  have hp := Schema.hashIndex_eq_some.mp hix
  -- A step that does not come through this index has no bucket of it to go to.
  have ho : ∀ (site : Option (ℕ × ℕ)) (eff : Effect σ.entry_size),
      (∀ b, site ≠ some (i, b)) → OwnBucketAt i (.hash h) site eff := by
    intro site eff hne
    cases eff with
    | insert => exact fun b hsi => absurd hsi (hne b)
    | none | update | delete => trivial
  cases hs with
  | received => exact ho none _ nofun
  | @localOp env op t' r hrun =>
    by_cases hke : op.SequenceKeyed σ
    · exact (op.ownBucket hke).at hp
    -- The call is one through a sequence index.
    refine ho _ _ fun b hsi => hke ?_
    cases op with
    | sequenceInsert j sequence_index data | sequenceUpdate j sequence_index data =>
      intro s hs
      have hbi : ((σ.sequenceIndex j).bind fun s =>
          (s.bucketAt sequence_index).map fun b => (j, b)) = some (i, b) := hsi
      rw [hs, bind_some] at hbi
      obtain ⟨b', -, hb'⟩ := map_eq_some_iff.mp hbi
      obtain rfl : j = i := congrArg Prod.fst hb'
      exact absurd (hp.symm.trans (Schema.sequenceIndex_eq_some.mp hs)) (by simp)
    | _ => trivial

section

variable {host : Host} {schemas : List Schema} {s : System} (hw : ∀ σ ∈ schemas, σ.Works)
  (h : Reachable host keysUnique schemas s) (a : AnyTable) (ha : a ∈ s.reg.tables)
include host hw h ha

theorem Reachable.indexing :
    a.schema.Works ∧ Occupancy a.table.toCore ∧ Indexing a.table.toCore := by
  obtain ⟨hσ, ho, hI⟩ := h.core_invariant (fun _ c => Indexing c)
    (fun σ _ => indexing_create σ)
    (fun σ c c' site eff hσ ho hI hok hs => hs.indexing ho (hw σ hσ) hI hok.1 hok.2) a ha
  exact ⟨hw _ hσ, ho, hI⟩

/-- In every state of a run that keeps the keys unique and whose calls name the bucket of their
data, each hash and sequence index holds exactly one node for each existing entry, in the bucket of
its current data and in no other, and no node of an entry that does not exist. -/
theorem index_bijection_of_reachable (i : ℕ) (ix : Index a.schema.entry_size)
    (hix : a.schema.index_list[i]? = some ix) (harr : ix ≠ .array) :
    (∀ id, (a.table.entries id).exist = true →
      ∃ d b, (a.table.entries id).real_data = some d ∧ ix.bucket d = some b ∧
        (a.table.chains i b).count id = 1 ∧ ∀ b', b' ≠ b → id ∉ a.table.chains i b') ∧
      ∀ b id, id ∈ a.table.chains i b → (a.table.entries id).exist = true := by
  obtain ⟨hworks, hocc, hI⟩ := h.indexing hw a ha
  have hindexed := hI.indexed i ix hix
  refine ⟨fun id hex => ?_, fun b id hid => ?_⟩
  · rw [← hocc.real_data, isSome_iff_exists] at hex
    obtain ⟨d, hd⟩ := hex
    have hget : dbTableGetEntry a.table.toCore id = some d := by rw [hocc.get_eq, hd]
    obtain rfl | hk := hworks ix (mem_of_getElem? hix)
    · exact absurd rfl harr
    obtain ⟨b, hb⟩ := isSome_iff_exists.mp (hk.inRange d)
    refine ⟨d, b, hd, hb, ?_, fun b' hb' hmem => hb' ?_⟩
    · rw [hindexed b id, hget, bind_some, if_pos hb]
    · obtain ⟨d', hd', hb''⟩ := hindexed.mem_iff.mp hmem
      obtain rfl : d = d' := mem_unique hget hd'
      exact mem_unique hb'' hb
  · obtain ⟨d, hd, -⟩ := hindexed.mem_iff.mp hid
    exact hocc.exist_of_get hd

end

def byteHash (n k : ℕ) : HashIndex n where
  size := 256
  hash_key := some fun d => (d.toList.getD k 0).toNat
  hash_cmp x y := x.toList.getD k 0 == y.toList.getD k 0

theorem byteHash_works (n k : ℕ) : (Index.hash (byteHash n k)).Works := by
  have hb : ∀ d : Bytes n, (byteHash n k).bucket d = some (d.toList.getD k 0).toNat := by
    intro d
    exact filter_eq_some_iff.mpr ⟨rfl, decide_eq_true (d.toList.getD k 0).toNat_lt⟩
  refine Or.inr (.of_key (·.toList.getD k 0) (fun _ _ => beq_iff_eq) (fun a b h => ?_) fun a => ?_)
  · change HashIndex.bucket _ _ = HashIndex.bucket _ _
    rw [hb, hb, h]
  · change (HashIndex.bucket _ _).isSome = true
    rw [hb]
    rfl

def twoKeys : Schema where
  name := Bytes.zero 31
  entry_num := 3
  entry_size := 2
  sync_size := 2
  sync_mode := DB_SYNC_NONE
  index_list := [.hash (byteHash 2 0), .hash (byteHash 2 1)]
  entry_num_lt := by decide
  entry_size_lt := by decide
  sync_size_le := by decide

def twoBytes (k v : UInt8) : Bytes 2 := ⟨[k, v], rfl⟩

theorem twoKeys_works : twoKeys.Works := by
  intro ix hix
  rcases mem_cons.mp hix with rfl | hix
  · exact byteHash_works 2 0
  · rw [mem_singleton.mp hix]
    exact byteHash_works 2 1

theorem uniqueKeys_create (σ : Schema) (eff : Effect σ.entry_size) :
    UniqueKeys (Core.create σ) eff := by
  have hget := getEntry_create σ
  cases eff with
  | none | delete => trivial
  | insert | update =>
    intro _ _ j x hj
    rw [hget] at hj
    simp at hj

def quietEnv : Env := ⟨true, false, none, fun n _ => Bytes.zero n⟩

def oneEntry : Table twoKeys :=
  (LocalOp.hashInsert 0 (twoBytes 1 7) : LocalOp twoKeys.entry_size).after quietEnv
    (createDbtable twoKeys)

theorem reachable_oneEntry :
    Reachable ⟨.little, .bits32, false⟩ keysUnique [twoKeys] ⟨⟨[⟨twoKeys, oneEntry⟩], 0⟩, []⟩ := by
  have hrun : (LocalOp.hashInsert 0 (twoBytes 1 7) : LocalOp twoKeys.entry_size).run quietEnv
      (createDbtable twoKeys) = .ok (oneEntry, 0) := rfl
  exact .single (.localOp (k := 0) (a := ⟨twoKeys, createDbtable twoKeys⟩) rfl hrun
    ⟨uniqueKeys_create _ _, LocalOp.ownBucket _ trivial⟩)

/-- After one insertion the other index has the node of the new entry in its bucket. -/
theorem index_bijection_of_reachable_insert :
    ∃ d b, (oneEntry.entries 0).real_data = some d ∧ (Index.hash (byteHash 2 1)).bucket d = some b ∧
      (oneEntry.chains 1 b).count 0 = 1 := by
  have hres := index_bijection_of_reachable (by simpa using twoKeys_works) reachable_oneEntry _
    (mem_singleton_self _) 1 (.hash (byteHash 2 1)) rfl (by simp)
  obtain ⟨d, b, hd, hb, hcount, -⟩ := hres.1 0 rfl
  exact ⟨d, b, hd, hb, hcount⟩

def byteSequence : SequenceIndex 2 where
  size := 256
  sequence_index k := k
  sequence_key d := (d.toList.getD 0 0).toNat
  sequence_cmp x y := x.toList == y.toList

theorem byteSequence_keyed :
    Keyed (Index.sequence byteSequence).bucket byteSequence.sequence_cmp := by
  have hb : ∀ d : Bytes 2, (Index.sequence byteSequence).bucket d =
      some (d.toList.getD 0 0).toNat := by
    intro d
    rw [Index.bucket, SequenceIndex.bucketAt, filter_eq_some_iff]
    exact ⟨rfl, decide_eq_true (d.toList.getD 0 0).toNat_lt⟩
  refine .of_key (·.toList) (fun _ _ => beq_iff_eq) (fun a b h => ?_) fun a => ?_
  · rw [hb, hb, h]
  · rw [hb]
    rfl

def sequenceTable : Schema := { twoKeys with index_list := [.sequence byteSequence] }

def misplaced : Table sequenceTable :=
  (LocalOp.sequenceInsert 0 5 (twoBytes 0 7) : LocalOp sequenceTable.entry_size).after quietEnv
    (createDbtable sequenceTable)

/-- A caller that names another bucket than that of its data has the node placed there, though the
keys are unique. -/
theorem index_bijection_misplaced :
    sequenceTable.Works ∧
      Reachable ⟨.little, .bits32, false⟩ (fun _ c _ eff => UniqueKeys c eff) [sequenceTable]
        ⟨⟨[⟨sequenceTable, misplaced⟩], 0⟩, []⟩ ∧
      (misplaced.entries 0).exist = true ∧
      (misplaced.entries 0).real_data = some (twoBytes 0 7) ∧
      (Index.sequence byteSequence).bucket (twoBytes 0 7) = some 0 ∧
      misplaced.chains 0 0 = [] ∧ misplaced.chains 0 5 = [0] := by
  have hrun : (LocalOp.sequenceInsert 0 5 (twoBytes 0 7) : LocalOp sequenceTable.entry_size).run
      quietEnv (createDbtable sequenceTable) = .ok (misplaced, 0) := rfl
  refine ⟨fun ix hix => ?_, ?_, rfl, rfl, rfl, rfl, rfl⟩
  · rw [mem_singleton.mp hix]
    exact .inr byteSequence_keyed
  · exact .single (.localOp (k := 0) (a := ⟨sequenceTable, createDbtable sequenceTable⟩) rfl hrun
      (uniqueKeys_create _ _))

end Chanos.Database

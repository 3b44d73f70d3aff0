import Chanos.Database.Handlers
import Chanos.Database.Search
import Chanos.Lib.BoundedMap

/-!
# Tables that are used through one index

An application mostly uses one hash index of its table. `Primary` says what that asks of the
indexes: the comparison of the one that is used divides the data into keys and respects its buckets,
and data that compares equal in another index has the same key.
-/

namespace Chanos.Database

open Lib Option BoundedMap List

variable {σ : Schema}

theorem HashIndex.bucket_of_lt {n : ℕ} {hash : HashIndex n} {key : Bytes n → ℕ}
    (hke : hash.hash_key = some key) {x : Bytes n} (hlt : key x < hash.size) :
    hash.bucket x = some (key x) := by
  unfold HashIndex.bucket
  rw [hke]
  exact filter_eq_some_iff.mpr ⟨rfl, decide_eq_true hlt⟩

/-! ## Walks -/

section

variable {env : Env} {t : Table σ} {i b : ℕ} {hash : HashIndex σ.entry_size} {data : σ.Data}

theorem insertStop_none : insertStop data hash none = hash.hash_cmp data :=
  funext fun _ => Bool.or_false _

theorem insertFound_eq :
    insertFound env t i data hash b none = scan (dbTableGetEntry t.toCore) (hash.hash_cmp data)
      (env.malloc _ .caller) (t.chains i b) := by
  unfold insertFound
  rw [insertStop_none]
  cases hsc : scan (dbTableGetEntry t.toCore) (hash.hash_cmp data) (env.malloc _ .caller)
      (t.chains i b) with
  | none => rfl
  | some r => exact filter_eq_some_iff.mpr ⟨rfl, (mem_of_scan hsc).2.1⟩

theorem hashInsertSeq_eq (hix : σ.hashIndex i = some hash) (hb : hash.bucket data = some b) :
    dbtableHashInsertSeq env t i data none = chainInsert env t i b data
      (scan (dbTableGetEntry t.toCore) (hash.hash_cmp data) (env.malloc _ .caller) (t.chains i b))
      fun entry_id => t.chains i b ++ [entry_id] := by
  unfold dbtableHashInsertSeq
  rw [hix]
  dsimp only
  rw [hb]
  dsimp only
  rw [insertFound_eq, insertStop_none]
  cases hsc : scan (dbTableGetEntry t.toCore) (hash.hash_cmp data) (env.malloc _ .caller)
      (t.chains i b) with
  | none => simp only [link_of_scan_eq_none _ hsc]
  | some p => rfl

theorem hashDelete_eq (hk : Keyed hash.bucket hash.hash_cmp)
    (hix : σ.hashIndex i = some hash) (hb : hash.bucket data = some b) :
    dbtableHashDelete env t i data =
      chainDelete env t i b (hash.hash_cmp data) (env.malloc _ .caller) := by
  obtain ⟨hke, -⟩ := HashIndex.exists_bucket hk data
  have hsy : (fun x => hash.hash_cmp x data) = hash.hash_cmp data := by
    funext x
    exact Bool.eq_iff_iff.mpr ⟨hk.symm, hk.symm⟩
  unfold dbtableHashDelete
  rw [hix]
  dsimp only
  rw [hke, if_neg Bool.false_ne_true, hb]
  rw [hsy]

theorem deleteVia_snd {entry_id : ℕ} {x buf : σ.Data} {l : List ℕ}
    (hget : dbTableGetEntry t.toCore entry_id = some x) :
    (deleteVia env { t with toCore := t.toCore.setChain i b l } i entry_id buf).2 = x := by
  have hsm := getEntry_congr
    (Core.freeEntryIndex_store (t.toCore.setChain i b l) (env.malloc _) entry_id (some i)).1
  exact congrArg (·.getD buf) ((congrFun hsm entry_id).trans hget)

end

section

variable {env : Env} {t t' : Table σ} {i b entry_id : ℕ} {data old : σ.Data} {l : List ℕ}

theorem updateVia_toCore (ho : Occupancy t.toCore)
    (hget : dbTableGetEntry t.toCore entry_id = some old) :
    (updateVia env t i entry_id data old).toCore =
      t.toCore.updateEntry (env.malloc _) entry_id old data (some i) := by
  have hco : (dbTableUpdateEntry env t entry_id data (some i) true).1.toCore =
      t.toCore.updateEntry (env.malloc _) entry_id old data (some i) :=
    (updateEntry_spec ho hget rfl).1
  rw [← hco]
  unfold updateVia
  dsimp only
  split_ifs <;> simp

theorem insertVia_toCore {clear : Bool} (hlt : entry_id < σ.entry_num)
    (h : insertVia env t i entry_id data clear = .ok t') :
    t'.toCore = t.toCore.insertEntry (env.malloc _) entry_id data (some i) := by
  obtain ⟨t₁, hi, ht'⟩ := bind_eq_ok.mp h
  rw [← (insertEntry_spec hlt hi).1, ← Except.ok.inj ht']
  split_ifs <;> simp

theorem deleteVia_toCore (ho : Occupancy t.toCore) {buf : σ.Data}
    (hget : dbTableGetEntry t.toCore entry_id = some old) :
    (deleteVia env { t with toCore := t.toCore.setChain i b l } i entry_id buf).1.toCore =
      ((t.toCore.setChain i b l).freeEntryIndex (env.malloc _) entry_id (some i)).deleteEntry
        entry_id := by
  obtain ⟨he, halc, hu⟩ :=
    Core.freeEntryIndex_store (t.toCore.setChain i b l) (env.malloc _) entry_id (some i)
  have ho' := ho.congr he halc hu
  have hget' := (congrFun (getEntry_congr he) entry_id).trans hget
  unfold deleteVia
  rw [(deleteEntry_spec (by rw [callHandler_toCore]; exact ho') env true
    (by rw [callHandler_toCore]; exact hget')).1, callHandler_toCore]
  rfl

end

/-! ## The table as a map -/

structure Primary {κ : Type*} (σ : Schema) (i : ℕ) (hash : HashIndex σ.entry_size)
    (key : σ.Data → κ) : Prop where
  hashIndex : σ.hashIndex i = some hash
  cmp_iff : ∀ x y, hash.hash_cmp x y = true ↔ key x = key y
  bucket_eq : ∀ x y, key x = key y → hash.bucket x = hash.bucket y
  inRange : ∀ x, (hash.bucket x).isSome = true
  others : ∀ j ix, σ.index_list[j]? = some ix → j ≠ i →
    ix.Compares ∧ ∀ x y, ix.cmp x y = true → key x = key y

/-- The table stands for the map: its store and its indexes are right, and its entries are the
values of the map. -/
structure StandsFor {κ : Type*} (key : σ.Data → κ) (c : Core σ)
    (m : BoundedMap κ σ.Data σ.entry_num) : Prop where
  occupancy : Occupancy c
  indexing : Indexing c
  slots : Slots key (dbTableGetEntry c) m

theorem standsFor_create {κ : Type*} {key : σ.Data → κ} : StandsFor key (Core.create σ) .empty :=
  ⟨occupancy_create σ, indexing_create σ, .empty (getEntry_create σ)⟩

def lookupResult {n : ℕ} : Option (Bytes n) → Except ℤ (Bytes n)
  | none => .error returnCodeEntryNotExist
  | some d => .ok d

def Schema.writeNotices (σ : Schema) (old : Option σ.Data) (room : Bool) (data : σ.Data) :
    List (Notice σ.entry_size) :=
  match old with
  | some old => [⟨σ.handle_update, .handleUpdate data old⟩]
  | none => if room then [⟨σ.handle_insert, .handleInsert data⟩] else []

def Schema.deleteNotices (σ : Schema) (old : Option σ.Data) : List (Notice σ.entry_size) :=
  old.toList.map fun old => ⟨σ.handle_delete, .handleDelete old⟩

section

variable {κ : Type*} {i : ℕ} {hash : HashIndex σ.entry_size} {key : σ.Data → κ}

theorem Primary.index (hp : Primary σ i hash key) : σ.index_list[i]? = some (.hash hash) :=
  Schema.hashIndex_eq_some.mp hp.hashIndex

theorem Primary.keyed (hp : Primary σ i hash key) : Keyed hash.bucket hash.hash_cmp :=
  .of_key key hp.cmp_iff hp.bucket_eq hp.inRange

theorem Primary.key_eq (hp : Primary σ i hash key) {j : ℕ} {ix : Index σ.entry_size}
    (hix : σ.index_list[j]? = some ix) {x y : σ.Data} (hcmp : ix.cmp x y = true) :
    key x = key y := by
  by_cases hj : j = i
  · rw [hj, hp.index] at hix
    cases hix
    exact (hp.cmp_iff x y).mp hcmp
  · exact (hp.others j ix hix hj).2 x y hcmp

def Effect.NewIn {n : ℕ} (key : Bytes n → κ) (get : ℕ → Option (Bytes n)) : Effect n → Prop
  | .insert entry_id data | .update entry_id data =>
    ∀ j x, get j = some x → key x = key data → j = entry_id
  | .none | .delete _ => True

theorem Effect.NewIn.newKey (hp : Primary σ i hash key) {get : ℕ → Option σ.Data}
    {eff : Effect σ.entry_size} (h : eff.NewIn key get) {j : ℕ} {ix : Index σ.entry_size}
    (hix : σ.index_list[j]? = some ix) : ix.NewKey get eff := by
  cases eff with
  | insert entry_id data | update entry_id data =>
    exact fun j' x hx hcmp => h j' x hx (hp.key_eq hix hcmp).symm
  | none | delete => trivial

theorem CoreStep.indexing_via (hp : Primary σ i hash key) {c c' : Core σ} {site : Option (ℕ × ℕ)}
    {eff : Effect σ.entry_size} (hs : CoreStep c site eff c') (ho : Occupancy c)
    (hI : Indexing c) (how : OwnBucket σ site eff) (hn : eff.NewIn key (dbTableGetEntry c))
    (hot : ∀ j ix, σ.index_list[j]? = some ix → j ≠ i → ix.Compares → IndexedAt c j ix →
      ix.NewKey (dbTableGetEntry c) eff →
        ix.Follows (dbTableGetEntry c) (c.chains j) eff (c'.chains j)) :
    Occupancy c' ∧ Indexing c' := by
  have ha : ∀ j ix, σ.index_list[j]? = some ix → IndexedAt c' j ix := by
    intro j ix hix
    have hke := hn.newKey hp hix
    by_cases hj : j = i
    · have hi := hp.index
      rw [← hj, hix] at hi
      cases hi
      exact hs.indexedAt ho hix (.inr hp.keyed) (hI.at hix) hke (how.at hix)
    · have hc := (hp.others j ix hix hj).1
      refine ⟨?_, by rw [hs.get_eq ho]; exact hke.distinct hc (hI.at hix).distinct⟩
      rw [hs.get_eq ho]
      exact (hot j ix hix hj hc (hI.at hix) hke).indexed (hs.effect_valid ho) (hI.at hix).indexed
  refine ⟨hs.occupancy ho, fun j ix hix => (ha j ix hix).indexed, fun ix hme => ?_⟩
  obtain ⟨j, hix⟩ := mem_iff_getElem?.mp hme
  exact (ha j ix hix).distinct

end

namespace StandsFor

variable {κ : Type*} {i b : ℕ} {hash : HashIndex σ.entry_size} {key : σ.Data → κ} {t t' : Table σ}
  {m : BoundedMap κ σ.Data σ.entry_num} {env : Env} {data old : σ.Data} {id : ℕ}

variable (hp : Primary σ i hash key) (h : StandsFor key t.toCore m)

include h in
theorem use_num_eq : t.entry_use_num.toNat = m.keys.card := by
  rw [h.occupancy.use_num_eq_card, h.slots.card_keys fun id v => h.occupancy.lt_of_get]
  congr 1
  refine Finset.filter_congr fun id _ => ?_
  rw [h.occupancy.isSome_get]

include h in
theorem alloc_eq_none_iff : osalTableEntryIdAlloc t.toCore = none ↔ m.keys.card = σ.entry_num := by
  have hu := h.occupancy.use_num
  have hc := h.use_num_eq
  unfold osalTableEntryIdAlloc
  cases hl : t.entry_alloc_list with
  | nil =>
    rw [hl, length_nil] at hu
    simp only [true_iff]
    omega
  | cons id l =>
    rw [hl, length_cons] at hu
    have hr : ¬ σ.entry_num ≤ t.entry_use_num.toNat := by omega
    dsimp only
    rw [if_neg hr]
    refine iff_of_false (by simp) ?_
    omega

include hp h

theorem scan_spec (data buf : σ.Data) : ∃ b found, hash.bucket data = some b ∧
      scan (dbTableGetEntry t.toCore) (hash.hash_cmp data) buf (t.chains i b) = found ∧
      m.lookup (key data) = found.map Prod.snd ∧
      ∀ p ∈ found, dbTableGetEntry t.toCore p.1 = some p.2 ∧ key data = key p.2 := by
  obtain ⟨-, b, hb⟩ := HashIndex.exists_bucket hp.keyed data
  have hix := hp.index
  have hsc {p : ℕ × σ.Data} :
      scan (dbTableGetEntry t.toCore) (hash.hash_cmp data) buf (t.chains i b) = some p ↔
        dbTableGetEntry t.toCore p.1 = some p.2 ∧ key data = key p.2 := by
    rw [← hp.cmp_iff]
    exact (h.indexing.indexed i _ hix).scan_eq_some_iff hp.keyed
      (h.indexing.distinct _ (mem_of_getElem? hix)) hb
  refine ⟨b, _, hb, rfl, ?_, fun p hf => hsc.mp hf⟩
  cases hf : scan (dbTableGetEntry t.toCore) (hash.hash_cmp data) buf (t.chains i b) with
  | none =>
    refine eq_none_iff_forall_ne_some.mpr fun x hx => ?_
    obtain ⟨id, hget, hke⟩ := (h.slots.lookup_iff _ _).mp hx
    rw [hsc (p := (id, x)) |>.mpr ⟨hget, hke.symm⟩] at hf
    simp at hf
  | some p =>
    obtain ⟨hget, hke⟩ := hsc.mp hf
    exact (h.slots.lookup_iff _ _).mpr ⟨p.1, hget, hke.symm⟩

theorem search_eq (env : Env) (data : σ.Data) :
    dbtableHashSearch env t i data none = lookupResult (m.lookup (key data)) := by
  obtain ⟨b, found, hb, hf, hlk, -⟩ := h.scan_spec hp data (env.malloc _ .search)
  rw [hashSearch_eq hp.keyed hp.hashIndex env hb, hf, hlk]
  cases found <;> rfl

variable [DecidableEq κ]

theorem updateVia (hget : dbTableGetEntry t.toCore id = some old) (hke : key data = key old) :
    StandsFor key (Database.updateVia env t i id data old).toCore (m.put (key data) data) := by
  have hix := hp.index
  have hst : CoreStep t.toCore none (.update id data)
      (t.toCore.updateEntry (env.malloc _) id old data (some i)) := by
    refine .update _ hget fun j ix hj hix' => .inr ?_
    cases hj
    obtain rfl := mem_unique hix hix'
    exact (hp.cmp_iff data old).mpr hke
  have ho : ∀ j x, dbTableGetEntry t.toCore j = some x → key x = key data → j = id :=
    fun j x hx hxk => h.slots.injective hx hget (hxk.trans hke)
  have hr : m.HasRoom (key data) :=
    .inl (h.slots.mem_keys_iff.mpr ⟨id, old, hget, hke.symm⟩)
  rw [updateVia_toCore h.occupancy hget]
  obtain ⟨hoc, hI⟩ := hst.indexing_via hp h.occupancy h.indexing trivial ho
    fun j ix hix hj hc ha hn => Core.updateEntry_follows _ hix
      (fun hi => hj (some.inj hi).symm) hc ha h.occupancy hget hn
  refine ⟨hoc, hI, ?_⟩
  rw [hst.get_eq h.occupancy, put, dif_pos hr]
  refine h.slots.set hr ho fun x hx => ?_
  rw [← mem_unique hget hx, hke]

theorem insertVia {l : List ℕ}
    {clear : Bool} (hno : m.lookup (key data) = none) (hfr : id ∈ t.entry_alloc_list)
    (hb : hash.bucket data = some b) (hl : AddedTo id (t.chains i b) l)
    (hr : m.HasRoom (key data))
    (hrun : Database.insertVia env
      { t with toCore := (t.toCore.take id).setChain i b l } i id data clear = .ok t') :
    StandsFor key t'.toCore (m.put (key data) data) := by
  obtain ⟨hlt, hget⟩ := h.occupancy.mem_free.mp hfr
  have hco : t'.toCore = ((t.toCore.setChain i b l).take id).insertEntry (env.malloc _) id data
      (some i) := insertVia_toCore hlt hrun
  have hst : CoreStep t.toCore (some (i, b)) (.insert id data) t'.toCore := by
    rw [hco]
    exact .insert _ hfr (.on hl)
  have ho : ∀ j x, dbTableGetEntry t.toCore j = some x → key x = key data → j = id := by
    intro j x hx hxk
    have hso := h.slots.lookup_of_get hx
    rw [hxk, hno] at hso
    simp at hso
  have how : OwnBucket σ (some (i, b)) (.insert id data) := by
    intro j b' ix hsi hix
    cases hsi
    obtain rfl := some.inj (hp.index.symm.trans hix)
    exact hb
  obtain ⟨hoc, hI⟩ := hst.indexing_via hp h.occupancy h.indexing how ho
    fun j ix hix hj hc ha hn => by
      rw [hco]
      exact Core.insertEntry_follows _ hix (fun hi => hj (some.inj hi).symm) hc ha rfl
        (Core.setChain_chains_of_ne _ _ _ hj) hlt hget hn
  refine ⟨hoc, hI, ?_⟩
  rw [hst.get_eq h.occupancy, put, dif_pos hr]
  refine h.slots.set hr ho fun x hx => ?_
  rw [hget] at hx
  simp at hx

theorem deleteVia {l : List ℕ} {buf : σ.Data} (hget : dbTableGetEntry t.toCore id = some old)
    (hl : AddedTo id l (t.chains i b)) :
    StandsFor key
      (Database.deleteVia env { t with toCore := t.toCore.setChain i b l } i id buf).1.toCore
      (m.erase (key old)) := by
  rw [deleteVia_toCore h.occupancy hget]
  have hst : CoreStep t.toCore none (.delete id)
      (((t.toCore.setChain i b l).freeEntryIndex (env.malloc _) id (some i)).deleteEntry id) :=
    .delete _ hget (.on hl)
  obtain ⟨ho, hI⟩ := hst.indexing_via hp h.occupancy h.indexing trivial trivial
    fun j ix hix hj hc ha _ => Core.deleteEntry_follows _ hix
      (fun hi => hj (some.inj hi).symm) hc ha rfl (Core.setChain_chains_of_ne _ _ _ hj) hget
  refine ⟨ho, hI, ?_⟩
  rw [hst.get_eq h.occupancy]
  exact h.slots.erase hget

section

variable (env : Env) (data : σ.Data) (hse : σ.Fits ∨ env.sends σ true = false)
include hse

theorem insert :
    ∃ t', dbtableHashInsert env t i data =
        .ok (t', if m.HasRoom (key data) then 0 else -1) ∧
      StandsFor key t'.toCore (m.put (key data) data) ∧
      t'.calls = (tell (σ.writeNotices (m.lookup (key data)) (decide (m.HasRoom (key data))) data)
        (t.calls, 0)).1 := by
  obtain ⟨b, found, hb, hf, hlk, hsp⟩ := h.scan_spec hp data (env.malloc _ .caller)
  rw [dbtableHashInsert, hashInsertSeq_eq hp.hashIndex hb, hf, hlk]
  cases found with
  | some p =>
    -- The key is there: its entry is rewritten.
    obtain ⟨hget, hke⟩ := hsp p rfl
    have hr : m.HasRoom (key data) :=
      .inl (h.slots.mem_keys_iff.mpr ⟨p.1, p.2, hget, hke.symm⟩)
    exact ⟨Database.updateVia env t i p.1 data p.2, by rw [if_pos hr]; rfl,
      h.updateVia hp hget hke, (updateVia_told h.occupancy hget).calls⟩
  | none =>
    have hn := lookup_eq_none_iff.mp hlk
    rw [chainInsert]
    cases halc : osalTableEntryIdAlloc t.toCore with
    | none =>
      -- The key is new and the map is full.
      have hfu := h.alloc_eq_none_iff.mp halc
      have hr : ¬m.HasRoom (key data) := by
        rintro (hme | hlt)
        · exact hn hme
        · omega
      refine ⟨t, by rw [if_neg hr], ?_, ?_⟩
      · rw [put, dif_neg hr]
        exact h
      · rw [decide_eq_false hr]
        rfl
    | some p =>
      -- The key is new and there is room.
      obtain ⟨hfr, hc⟩ := entryIdAlloc_eq_some halc
      have hr : m.HasRoom (key data) := by
        have hne : m.keys.card ≠ σ.entry_num := fun hfu => by
          rw [h.alloc_eq_none_iff.mpr hfu] at halc
          simp at halc
        exact .inr (lt_of_le_of_ne m.card_le hne)
      obtain ⟨t', ht'⟩ : ∃ t', Database.insertVia env { t with
          toCore := p.2.setChain i b (t.chains i b ++ [p.1]) } i p.1 data false = .ok t' :=
        insertVia_ok _ _ _ _ _ hse
      refine ⟨t', ?_, ?_, ?_⟩
      · dsimp only
        rw [ht', if_pos hr]
        rfl
      · rw [hc] at ht'
        exact h.insertVia hp hlk hfr hb (addedTo_concat p.1 _) hr ht'
      · rw [decide_eq_true hr]
        exact (insertVia_told (h.occupancy.mem_free.mp hfr).1 ht' rfl).calls

theorem update :
    ∃ t', dbtableHashUpdate env t i data = .ok (t', if key data ∈ m.keys then 0 else -1) ∧
      StandsFor key t'.toCore (if key data ∈ m.keys then m.put (key data) data else m) ∧
      t'.calls = (tell (σ.writeNotices (m.lookup (key data)) false data) (t.calls, 0)).1 := by
  rw [dbtableHashUpdate, h.search_eq hp]
  cases hlk : m.lookup (key data) with
  | none =>
    have hn := lookup_eq_none_iff.mp hlk
    exact ⟨t, by rw [if_neg hn]; rfl, by rw [if_neg hn]; exact h, rfl⟩
  | some old =>
    have hin := mem_keys_of_lookup hlk
    obtain ⟨t', hrun, hsd, hc⟩ := h.insert hp env data hse
    rw [if_pos (show m.HasRoom (key data) from .inl hin)] at hrun
    rw [hlk] at hc
    exact ⟨t', by rw [if_pos hin]; exact hrun, by rw [if_pos hin]; exact hsd, hc⟩

end

theorem delete (env : Env) (data : σ.Data) :
    ∃ t', dbtableHashDelete env t i data = (t', 0, m.lookup (key data)) ∧
      StandsFor key t'.toCore (m.erase (key data)) ∧
      t'.calls = (tell (σ.deleteNotices (m.lookup (key data))) (t.calls, 0)).1 := by
  obtain ⟨b, found, hb, hf, hlk, hsp⟩ := h.scan_spec hp data (env.malloc _ .caller)
  rw [hashDelete_eq hp.keyed hp.hashIndex hb, chainDelete, hf, hlk]
  cases found with
  | none =>
    rw [erase_of_notMem (lookup_eq_none_iff.mp hlk)]
    exact ⟨t, rfl, h, rfl⟩
  | some p =>
    obtain ⟨hget, hke⟩ := hsp p rfl
    refine ⟨_, by dsimp only; rw [deleteVia_snd hget]; rfl, ?_, ?_⟩
    · rw [hke]
      exact h.deleteVia hp hget (unlink_addedTo hf)
    · refine (Prod.mk.inj deleteVia_hardware).1.trans ?_
      rw [hget]
      rfl

end StandsFor

/-! ## Uninitialised memory -/

def NodesExist (c : Core σ) (orig_index : Option ℕ) : Prop :=
  ∀ j ix, σ.index_list[j]? = some ix → orig_index ≠ some j → ∀ b, ∀ id ∈ c.chains j b,
    (dbTableGetEntry c id).isSome = true

theorem Indexing.nodesExist {c : Core σ} (h : Indexing c) (orig_index : Option ℕ) :
    NodesExist c orig_index := by
  intro j ix hix _ b id hid
  obtain ⟨d, hd, -⟩ := (h.indexed j ix hix).mem_iff.mp hid
  rw [hd, isSome_some]

theorem NodesExist.setChain {c : Core σ} {i : ℕ} (h : NodesExist c (some i)) (b : ℕ) (l : List ℕ) :
    NodesExist (c.setChain i b l) (some i) := by
  intro j ix hix hj b' id hid
  rw [Core.setChain_chains_of_ne _ _ _ fun hji => hj (by rw [hji])] at hid
  exact h j ix hix hj b' id hid

section

variable {n : ℕ} {get : ℕ → Option (Bytes n)} {chains : ℕ → List ℕ} {data : Bytes n}

theorem Index.index_buf (ix : Index n) (entry_id : ℕ)
    (h : ∀ b, ∀ id ∈ chains b, (get id).isSome = true) (buf buf' : Bytes n) :
    ix.indexInsert get buf data entry_id chains = ix.indexInsert get buf' data entry_id chains ∧
      ix.indexDelete get buf data chains = ix.indexDelete get buf' data chains := by
  have hi : ∀ (bucket : Option ℕ) (cmp cmp' : Bytes n → Bool),
      internalInsert get buf bucket cmp entry_id chains =
          internalInsert get buf' bucket cmp entry_id chains ∧
        internalDelete get buf bucket cmp' chains = internalDelete get buf' bucket cmp' chains := by
    intro bucket cmp cmp'
    cases bucket with
    | none => exact ⟨rfl, rfl⟩
    | some b =>
      unfold internalInsert internalDelete
      dsimp only
      rw [scan_buf (h b) buf', unlink_buf (h b) buf']
      exact ⟨rfl, rfl⟩
  cases ix with
  | hash hash | sequence s => exact hi _ _ _
  | array => exact ⟨rfl, rfl⟩

theorem Index.mem_of_mem_indexDelete (ix : Index n) {buf : Bytes n} {b id : ℕ}
    (h : id ∈ ix.indexDelete get buf data chains b) : id ∈ chains b := by
  have hunl : ∀ (p : Bytes n → Bool) (buf : Bytes n) (l : List ℕ),
      ∀ x ∈ unlink get p buf l, x ∈ l := by
    intro p buf l
    induction l generalizing buf with
    | nil => exact fun x hx => hx
    | cons y ys ih =>
      intro x hx
      rw [unlink] at hx
      split_ifs at hx
      · exact mem_cons_of_mem _ hx
      · rcases mem_cons.mp hx with rfl | hx
        · exact mem_cons_self
        · exact mem_cons_of_mem _ (ih _ x hx)
  have hi : ∀ (bucket : Option ℕ) (cmp : Bytes n → Bool),
      id ∈ internalDelete get buf bucket cmp chains b → id ∈ chains b := by
    intro bucket cmp hid
    cases bucket with
    | none => exact hid
    | some b' =>
      unfold internalDelete at hid
      dsimp only at hid
      rw [Function.update_apply] at hid
      split_ifs at hid with hb
      · rw [hb]
        exact hunl _ _ _ _ hid
      · exact hid
  cases ix with
  | hash hash | sequence s => exact hi _ _ h
  | array => exact h

end

section

variable {c : Core σ} {entry_id : ℕ} {old data : σ.Data} {orig_index : Option ℕ}

theorem Core.forEachIndex_congr {f g : ℕ → Index σ.entry_size → (ℕ → List ℕ) → ℕ → List ℕ}
    (h : ∀ j ix, σ.index_list[j]? = some ix → orig_index ≠ some j →
      f j ix (c.chains j) = g j ix (c.chains j)) :
    c.forEachIndex orig_index f = c.forEachIndex orig_index g := by
  rw [forEachIndex_eq, forEachIndex_eq, mk.injEq]
  refine ⟨rfl, rfl, rfl, funext fun j => ?_⟩
  cases hix : σ.index_list[j]? with
  | none => rfl
  | some ix =>
    split_ifs with hj
    · rfl
    · exact h j ix hix fun horig => hj horig.symm

open Core

theorem isSome_get_update {c' : Core σ} {e : DbEntry σ.entry_size} (hlt : entry_id < σ.entry_num)
    (he : c'.entries = Function.update c.entries entry_id e) (hex : e.exist = true)
    (hd : e.real_data = some data) {id : ℕ} (hid : (dbTableGetEntry c id).isSome = true) :
    (dbTableGetEntry c' id).isSome = true := by
  rw [getEntry_update hlt he, Function.update_apply, if_pos hex, hd]
  split_ifs
  · rfl
  · exact hid

section

variable (h : NodesExist c orig_index)
include h

theorem Core.insertEntry_malloc (hlt : entry_id < σ.entry_num)
    (malloc malloc' : MallocSite → σ.Data) :
    c.insertEntry malloc entry_id data orig_index =
      c.insertEntry malloc' entry_id data orig_index := by
  unfold insertEntry
  refine forEachIndex_congr fun j ix hix hj => (ix.index_buf entry_id (fun b id hid => ?_) _ _).1
  exact isSome_get_update hlt rfl rfl rfl (h j ix hix hj b id hid)

theorem Core.updateEntry_malloc (hlt : entry_id < σ.entry_num)
    (hex : (c.entries entry_id).exist = true) (malloc malloc' : MallocSite → σ.Data) :
    c.updateEntry malloc entry_id old data orig_index =
      c.updateEntry malloc' entry_id old data orig_index := by
  have hf : (c.forEachIndex orig_index fun i ix =>
        ix.indexDelete (dbTableGetEntry c) (malloc (.indexDelete i entry_id)) old) =
      c.forEachIndex orig_index fun i ix =>
        ix.indexDelete (dbTableGetEntry c) (malloc' (.indexDelete i entry_id)) old :=
    forEachIndex_congr fun j ix hix hj => (ix.index_buf entry_id (h j ix hix hj) _ _).2
  unfold updateEntry
  rw [hf]
  refine forEachIndex_congr fun j ix hix hj => (ix.index_buf entry_id (fun b id hid => ?_) _ _).1
  refine isSome_get_update (c := c) (e := { c.entries entry_id with real_data := some data }) hlt ?_
    hex rfl (h j ix hix hj b id ?_)
  · rw [forEachIndex_entries]
  · -- The nodes are those that the first loop has left.
    rw [forEachIndex_chains _ _ _ hix hj] at hid
    exact ix.mem_of_mem_indexDelete hid

theorem Core.freeEntryIndex_malloc (malloc malloc' : MallocSite → σ.Data) :
    c.freeEntryIndex malloc entry_id orig_index = c.freeEntryIndex malloc' entry_id orig_index := by
  unfold freeEntryIndex
  cases dbTableGetEntry c entry_id with
  | none => rfl
  | some old =>
    exact forEachIndex_congr fun j ix hix hj => (ix.index_buf entry_id (h j ix hix hj) _ _).2

end

end

def Env.withMalloc (env : Env) (malloc : (n : ℕ) → MallocSite → Bytes n) : Env :=
  { env with malloc }

namespace StandsFor

variable {κ : Type*} {i : ℕ} {hash : HashIndex σ.entry_size} {key : σ.Data → κ} {t : Table σ}
  {m : BoundedMap κ σ.Data σ.entry_num}

theorem updateVia_malloc (h : StandsFor key t.toCore m) (env : Env)
    (malloc : (n : ℕ) → MallocSite → Bytes n) {id : ℕ} {old : σ.Data} (data : σ.Data)
    (hget : dbTableGetEntry t.toCore id = some old) :
    Database.updateVia (env.withMalloc malloc) t i id data old =
      Database.updateVia env t i id data old := by
  have hr : (t.entries id).real_data = some old := by rw [← h.occupancy.get_eq, hget]
  have hco : t.toCore.updateEntry (malloc _) id old data (some i) =
      t.toCore.updateEntry (env.malloc _) id old data (some i) :=
    Core.updateEntry_malloc (h.indexing.nodesExist _) (h.occupancy.lt_of_get hget)
      (h.occupancy.exist_of_get hget) _ _
  unfold Database.updateVia dbTableUpdateEntry
  rw [hr]
  dsimp only [Env.withMalloc]
  rw [hco]
  rfl

theorem insertVia_malloc (env : Env) (malloc : (n : ℕ) → MallocSite → Bytes n) {t : Table σ}
    {id : ℕ} {data : σ.Data} {clear : Bool} (hlt : id < σ.entry_num)
    (hn : NodesExist t.toCore (some i)) :
    Database.insertVia (env.withMalloc malloc) t i id data clear =
      Database.insertVia env t i id data clear := by
  have hco : t.toCore.insertEntry (malloc _) id data (some i) =
      t.toCore.insertEntry (env.malloc _) id data (some i) :=
    Core.insertEntry_malloc hn hlt _ _
  unfold Database.insertVia dbTableInsertEntry
  dsimp only [Env.withMalloc]
  rw [hco]
  rfl

theorem deleteVia_malloc (h : StandsFor key t.toCore m) (env : Env)
    (malloc : (n : ℕ) → MallocSite → Bytes n) {id b : ℕ} {l : List ℕ} {buf : σ.Data} :
    Database.deleteVia (env.withMalloc malloc) { t with toCore := t.toCore.setChain i b l } i id
        buf =
      Database.deleteVia env { t with toCore := t.toCore.setChain i b l } i id buf := by
  have hco : (t.toCore.setChain i b l).freeEntryIndex (malloc _) id (some i) =
      (t.toCore.setChain i b l).freeEntryIndex (env.malloc _) id (some i) :=
    Core.freeEntryIndex_malloc ((h.indexing.nodesExist _).setChain b l) _ _
  unfold Database.deleteVia dbTableFreeEntryIndex
  dsimp only [Env.withMalloc]
  rw [hco]
  rfl

variable (hp : Primary σ i hash key) (h : StandsFor key t.toCore m) (env : Env)
  (malloc : (n : ℕ) → MallocSite → Bytes n) (data : σ.Data)
include hp h

theorem insert_malloc :
    dbtableHashInsert (env.withMalloc malloc) t i data = dbtableHashInsert env t i data := by
  obtain ⟨b, found, hb, hf, -, hsp⟩ := h.scan_spec hp data (env.malloc _ .caller)
  have hch := h.indexing.nodesExist none i _ hp.index (by simp) b
  rw [dbtableHashInsert, dbtableHashInsert, hashInsertSeq_eq hp.hashIndex hb,
    hashInsertSeq_eq hp.hashIndex hb, scan_buf hch (env.malloc _ .caller), hf]
  cases found with
  | some p =>
    have hget := (hsp p rfl).1
    unfold chainInsert
    dsimp only
    rw [h.updateVia_malloc env malloc data hget]
  | none =>
    unfold chainInsert
    cases halc : osalTableEntryIdAlloc t.toCore with
    | none => rfl
    | some p =>
      obtain ⟨hfr, hc⟩ := entryIdAlloc_eq_some halc
      obtain ⟨hlt, hget⟩ := h.occupancy.mem_free.mp hfr
      -- The chains of the other indexes are those of the table before.
      have hn : NodesExist p.2 (some i) := by
        rw [hc]
        exact h.indexing.nodesExist (some i)
      dsimp only
      rw [insertVia_malloc env malloc hlt (hn.setChain _ _)]

theorem update_malloc :
    dbtableHashUpdate (env.withMalloc malloc) t i data = dbtableHashUpdate env t i data := by
  rw [dbtableHashUpdate, dbtableHashUpdate, h.search_eq hp, h.search_eq hp,
    h.insert_malloc hp env malloc]

theorem delete_malloc :
    dbtableHashDelete (env.withMalloc malloc) t i data = dbtableHashDelete env t i data := by
  obtain ⟨b, found, hb, hf, -⟩ := h.scan_spec hp data (env.malloc _ .caller)
  have hch := h.indexing.nodesExist none i _ hp.index (by simp) b
  rw [hashDelete_eq hp.keyed hp.hashIndex hb, hashDelete_eq hp.keyed hp.hashIndex hb]
  unfold chainDelete
  rw [scan_buf hch (env.malloc _ .caller), unlink_buf hch (env.malloc _ .caller), hf]
  cases found with
  | none => rfl
  | some p =>
    dsimp only
    rw [h.deleteVia_malloc env malloc]

end StandsFor

end Chanos.Database

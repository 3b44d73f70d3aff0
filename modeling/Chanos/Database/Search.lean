import Chanos.Database.Indexing

/-!
# Finding an entry again

Where the indexes of a table are right, a search through a hash index finds the entry that compares
equal, if there is one. An insertion checks the keys of the index it comes through and of no other.
-/

namespace Chanos.Database

open Lib

variable {σ : Schema}

def runCalls (t : Table σ) : List (Env × LocalOp σ.entry_size) → Except Fault (Table σ)
  | [] => .ok t
  | (env, op) :: calls => do
    let r ← op.run env t
    runCalls r.1 calls

section

variable {t : Table σ} {i : ℕ} {hash : HashIndex σ.entry_size}

theorem HashIndex.exists_bucket (hk : Keyed hash.bucket hash.hash_cmp) (q : σ.Data) :
    hash.hash_key.isNone = false ∧ ∃ b, hash.bucket q = some b := by
  obtain ⟨b, hb⟩ := Option.isSome_iff_exists.mp (hk.inRange q)
  refine ⟨?_, b, hb⟩
  cases hke : hash.hash_key with
  | none => simp [HashIndex.bucket, hke] at hb
  | some key => rfl

theorem hashSearch_eq (hk : Keyed hash.bucket hash.hash_cmp) (hix : σ.hashIndex i = some hash)
    (env : Env) {q : σ.Data} {b : ℕ} (hb : hash.bucket q = some b) :
    dbtableHashSearch env t i q none = searchResult
      (scan (dbTableGetEntry t.toCore) (hash.hash_cmp q)
        (env.malloc _ .search) (t.chains i b)) := by
  obtain ⟨hke, -⟩ := HashIndex.exists_bucket hk q
  have ha : (fun x => hash.hash_cmp q x || Option.any (fun f => f q x)
      (none : Option (σ.Data → σ.Data → Bool))) = hash.hash_cmp q := by
    funext x
    exact Bool.or_false _
  unfold dbtableHashSearch
  rw [hix]
  dsimp only
  rw [hke, if_neg Bool.false_ne_true, hb]
  rw [ha]

theorem Indexing.search_some (hw : σ.Works) (h : Indexing t.toCore)
    (hix : σ.hashIndex i = some hash) (env : Env) {id : ℕ} {d q : σ.Data}
    (hget : dbTableGetEntry t.toCore id = some d) (hcmp : hash.hash_cmp q d = true) :
    dbtableHashSearch env t i q none = .ok d := by
  have hp := Schema.hashIndex_eq_some.mp hix
  have hme : .hash hash ∈ σ.index_list := List.mem_of_getElem? hp
  obtain ha | hk := hw _ hme
  · simp at ha
  obtain ⟨-, b, hb⟩ := HashIndex.exists_bucket hk q
  have hsc : scan (dbTableGetEntry t.toCore) (hash.hash_cmp q) (env.malloc _ .search)
      (t.chains i b) = some (id, d) :=
    ((h.indexed i _ hp).scan_eq_some_iff hk (h.distinct _ hme) hb).mpr ⟨hget, hcmp⟩
  rw [hashSearch_eq hk hix env hb, hsc]
  rfl

end

/-- In every state of a run that keeps the keys unique, every existing entry is found through every
hash index, by any data that compares equal to it there. So an entry that a step neither deletes nor
rewrites is found after it if it was found before. -/
theorem search_of_reachable {host : Host} {schemas : List Schema} {s : System}
    (hw : ∀ σ ∈ schemas, σ.Works) (h : Reachable host keysUnique schemas s) (a : AnyTable)
    (ha : a ∈ s.reg.tables) (i : ℕ) (hash : HashIndex a.schema.entry_size)
    (hix : a.schema.index_list[i]? = some (.hash hash)) (env : Env) (id : ℕ)
    (hex : (a.table.entries id).exist = true) :
    ∃ d, dbTableGetEntry a.table.toCore id = some d ∧
      ∀ q, hash.hash_cmp q d = true → dbtableHashSearch env a.table i q none = .ok d := by
  obtain ⟨hworks, hocc, hI⟩ := h.indexing hw a ha
  rw [← hocc.isSome_get, Option.isSome_iff_exists] at hex
  obtain ⟨d, hd⟩ := hex
  exact ⟨d, hd, fun q hq => hI.search_some hworks (Schema.hashIndex_eq_some.mpr hix) env hd hq⟩

/-- The entry of the first insertion is found through the other index. -/
theorem search_of_reachable_insert :
    ∃ d, dbTableGetEntry oneEntry.toCore 0 = some d ∧
      dbtableHashSearch quietEnv oneEntry 1 d none = .ok d := by
  obtain ⟨d, hd, hsearch⟩ := search_of_reachable (by simpa using twoKeys_works)
    reachable_oneEntry _ (List.mem_singleton_self _) 1 (byteHash 2 1) rfl quietEnv 0 rfl
  exact ⟨d, hd, hsearch d (beq_self_eq_true _)⟩

/-- Two entries with different first bytes and the same second byte are inserted through the first
index. Once the second one is deleted, the first still exists, and is no longer found through the
second index. -/
theorem dbtableHashDelete_hides_entry :
    let first : twoKeys.Data := twoBytes 1 7
    let second : twoKeys.Data := twoBytes 2 7
    ∃ t t' : Table twoKeys,
      runCalls (createDbtable twoKeys)
          [(quietEnv, .hashInsert 0 first), (quietEnv, .hashInsert 0 second)] = .ok t ∧
        (LocalOp.hashDelete 0 second).effect quietEnv t = .delete 1 ∧
        (LocalOp.hashDelete 0 second).run quietEnv t = .ok (t', 0) ∧
        dbtableHashSearch quietEnv t 1 first none = .ok first ∧
        dbTableGetEntry t'.toCore 0 = some first ∧
        dbtableHashSearch quietEnv t' 1 first none = .error returnCodeEntryNotExist :=
  ⟨_, _, rfl, rfl, rfl, rfl, rfl, rfl⟩

end Chanos.Database

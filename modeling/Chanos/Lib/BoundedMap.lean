import Mathlib.Tactic

/-!
# Finite maps of bounded size, kept in slots

`BoundedMap κ ν cap` is a finite map from keys to values with at most `cap` keys. A store that keeps
its values in numbered slots, and computes the key of a value from the value, stands for such a map
when no two of its values have the same key: `Slots key get m`.
-/

namespace Chanos.Lib

open Option Function Finset

structure BoundedMap (κ ν : Type*) (cap : ℕ) where
  lookup : κ → Option ν
  keys : Finset κ
  mem_keys : ∀ k, k ∈ keys ↔ (lookup k).isSome = true
  card_le : keys.card ≤ cap

namespace BoundedMap

variable {κ ν : Type*} {cap : ℕ} {m : BoundedMap κ ν cap} {k : κ}

@[ext]
theorem ext {m m' : BoundedMap κ ν cap} (h : ∀ k, m.lookup k = m'.lookup k) : m = m' := by
  have hke : m.keys = m'.keys := by
    ext k
    rw [m.mem_keys, m'.mem_keys, h]
  obtain ⟨lookup, keys, mem_keys, card_le⟩ := m
  obtain ⟨lookup', keys', mem_keys', card_le'⟩ := m'
  obtain rfl : lookup = lookup' := funext h
  obtain rfl : keys = keys' := hke
  rfl

theorem mem_keys_of_lookup {v : ν} (h : m.lookup k = some v) : k ∈ m.keys := by
  rw [m.mem_keys, h, isSome_some]

theorem lookup_eq_none_iff : m.lookup k = none ↔ k ∉ m.keys := by
  rw [m.mem_keys, Bool.not_eq_true, isSome_eq_false_iff, isNone_iff_eq_none]

def filter (m : BoundedMap κ ν cap) (p : κ → ν → Bool) : BoundedMap κ ν cap where
  lookup k := (m.lookup k).filter (p k)
  keys := m.keys.filter fun k => ((m.lookup k).filter (p k)).isSome = true
  mem_keys k := by
    rw [mem_filter, m.mem_keys]
    refine and_iff_right_of_imp fun h => ?_
    obtain ⟨v, hv⟩ := Option.isSome_iff_exists.mp h
    rw [(Option.filter_eq_some_iff.mp hv).1, Option.isSome_some]
  card_le := (card_filter_le _ _).trans m.card_le

theorem lookup_filter_eq_some {p : κ → ν → Bool} {v : ν} :
    (m.filter p).lookup k = some v ↔ m.lookup k = some v ∧ p k v = true :=
  filter_eq_some_iff

variable [DecidableEq κ]

def empty : BoundedMap κ ν cap where
  lookup _ := none
  keys := ∅
  mem_keys k := by simp
  card_le := by simp

def set (m : BoundedMap κ ν cap) (k : κ) (v : ν)
    (room : k ∈ m.keys ∨ m.keys.card < cap) : BoundedMap κ ν cap where
  lookup := update m.lookup k (some v)
  keys := insert k m.keys
  mem_keys k' := by
    rw [mem_insert, update_apply]
    split_ifs with hk
    · simp [hk]
    · simp [hk, m.mem_keys]
  card_le := by
    rcases room with hk | hrm
    · rw [insert_eq_of_mem hk]
      exact m.card_le
    · exact (card_insert_le _ _).trans hrm

def HasRoom (m : BoundedMap κ ν cap) (k : κ) : Prop := k ∈ m.keys ∨ m.keys.card < cap

instance (m : BoundedMap κ ν cap) (k : κ) : Decidable (m.HasRoom k) :=
  inferInstanceAs (Decidable (_ ∨ _))

def put (m : BoundedMap κ ν cap) (k : κ) (v : ν) : BoundedMap κ ν cap :=
  if room : m.HasRoom k then m.set k v room else m

def erase (m : BoundedMap κ ν cap) (k : κ) : BoundedMap κ ν cap where
  lookup := update m.lookup k none
  keys := m.keys.erase k
  mem_keys k' := by
    rw [mem_erase, update_apply]
    split_ifs with hk
    · simp [hk]
    · simp [hk, m.mem_keys]
  card_le := (card_erase_le).trans m.card_le

theorem lookup_put (h : m.HasRoom k) (v : ν) (k' : κ) :
    (m.put k v).lookup k' = if k' = k then some v else m.lookup k' := by
  rw [put, dif_pos h]
  exact update_apply ..

theorem lookup_erase (m : BoundedMap κ ν cap) (k k' : κ) :
    (m.erase k).lookup k' = if k' = k then none else m.lookup k' :=
  update_apply ..

theorem erase_put (m : BoundedMap κ ν cap) (k : κ) (v : ν) : (m.put k v).erase k = m.erase k := by
  ext1 k'
  rw [lookup_erase, lookup_erase]
  split_ifs with hk
  · rfl
  · by_cases hr : m.HasRoom k
    · rw [lookup_put hr, if_neg hk]
    · rw [put, dif_neg hr]

theorem erase_of_notMem (h : k ∉ m.keys) : m.erase k = m := by
  ext1 k'
  rw [lookup_erase]
  split_ifs with hk
  · rw [hk, lookup_eq_none_iff.mpr h]
  · rfl

end BoundedMap

/-! ## Slots -/

structure Slots {κ ν : Type*} {cap : ℕ} (key : ν → κ) (get : ℕ → Option ν)
    (m : BoundedMap κ ν cap) : Prop where
  lookup_iff : ∀ k v, m.lookup k = some v ↔ ∃ id, get id = some v ∧ key v = k
  injective : ∀ ⦃i j a b⦄, get i = some a → get j = some b → key a = key b → i = j

namespace Slots

variable {κ ν : Type*} {cap : ℕ} {key : ν → κ} {get : ℕ → Option ν} {m : BoundedMap κ ν cap}
  {id : ℕ} {v old : ν}

theorem empty (hget : ∀ id, get id = none) : Slots key get (.empty : BoundedMap κ ν cap) where
  lookup_iff k v := by simp [BoundedMap.empty, hget]
  injective i j a b hi := by simp [hget] at hi

theorem lookup_of_get (h : Slots key get m) (hget : get id = some v) : m.lookup (key v) = some v :=
  (h.lookup_iff _ _).mpr ⟨id, hget, rfl⟩

theorem mem_keys_iff (h : Slots key get m) {k : κ} :
    k ∈ m.keys ↔ ∃ id v, get id = some v ∧ key v = k := by
  rw [m.mem_keys, isSome_iff_exists]
  constructor
  · rintro ⟨v, hv⟩
    obtain ⟨id, hid⟩ := (h.lookup_iff _ _).mp hv
    exact ⟨id, v, hid⟩
  · rintro ⟨id, v, hid⟩
    exact ⟨v, (h.lookup_iff _ _).mpr ⟨id, hid⟩⟩

theorem card_keys (h : Slots key get m) {n : ℕ} (hn : ∀ id v, get id = some v → id < n) :
    m.keys.card = ((range n).filter fun id => (get id).isSome = true).card := by
  symm
  refine card_bij (fun id hid => key ((get id).get (mem_filter.mp hid).2)) ?_ ?_ ?_
  · intro id hid
    exact h.mem_keys_iff.mpr ⟨id, _, (some_get _).symm, rfl⟩
  · intro i hi j hj hij
    exact h.injective (some_get _).symm (some_get _).symm hij
  · intro k hk
    obtain ⟨id, v, hget, hke⟩ := h.mem_keys_iff.mp hk
    refine ⟨id, mem_filter.mpr ⟨mem_range.mpr (hn id v hget), by simp [hget]⟩, ?_⟩
    simpa [hget] using hke

variable [DecidableEq κ]

theorem set (h : Slots key get m) (room : key v ∈ m.keys ∨ m.keys.card < cap)
    (ho : ∀ j x, get j = some x → key x = key v → j = id)
    (hsm : ∀ x, get id = some x → key x = key v) :
    Slots key (update get id (some v)) (m.set (key v) v room) where
  lookup_iff k x := by
    change update m.lookup (key v) (some v) k = some x ↔ _
    rw [update_apply]
    split_ifs with hk
    · constructor
      · intro hx
        cases hx
        exact ⟨id, update_self .., hk.symm⟩
      · rintro ⟨j, hj, hke⟩
        by_cases hji : j = id
        · rw [hji, update_self] at hj
          exact hj
        · rw [update_of_ne hji] at hj
          exact absurd (ho j x hj (hke.trans hk)) hji
    · rw [h.lookup_iff]
      refine exists_congr fun j => and_congr_left fun hke => ?_
      by_cases hji : j = id
      · -- The written slot holds, and held, another key than `k`.
        subst hji
        rw [update_self]
        constructor
        · intro hx
          exact absurd (hke.symm.trans (hsm x hx)) hk
        · intro hx
          cases hx
          exact absurd hke.symm hk
      · rw [update_of_ne hji]
  injective i j a b hi hj ha := by
    by_cases hii : i = id <;> by_cases hji : j = id
    · rw [hii, hji]
    · rw [hii, update_self] at hi
      rw [update_of_ne hji] at hj
      cases hi
      exact absurd (ho j b hj ha.symm) hji
    · rw [hji, update_self] at hj
      rw [update_of_ne hii] at hi
      cases hj
      exact absurd (ho i a hi ha) hii
    · rw [update_of_ne hii] at hi
      rw [update_of_ne hji] at hj
      exact h.injective hi hj ha

theorem erase (h : Slots key get m) (hget : get id = some old) :
    Slots key (update get id none) (m.erase (key old)) where
  lookup_iff k x := by
    change update m.lookup (key old) none k = some x ↔ _
    rw [update_apply]
    split_ifs with hk
    · -- No other slot has the key of the one that is emptied.
      refine iff_of_false (by simp) ?_
      rintro ⟨j, hj, hke⟩
      by_cases hji : j = id
      · rw [hji, update_self] at hj
        simp at hj
      · rw [update_of_ne hji] at hj
        exact hji (h.injective hj hget (hke.trans hk))
    · rw [h.lookup_iff]
      refine exists_congr fun j => and_congr_left fun hke => ?_
      by_cases hji : j = id
      · subst hji
        rw [update_self, hget]
        refine iff_of_false (fun hx => ?_) (by simp)
        cases hx
        exact hk hke.symm
      · rw [update_of_ne hji]
  injective i j a b hi hj ha := by
    have ho : ∀ {l c}, update get id none l = some c → get l = some c := by
      intro l c hl
      by_cases hli : l = id
      · rw [hli, update_self] at hl
        simp at hl
      · rwa [update_of_ne hli] at hl
    exact h.injective (ho hi) (ho hj) ha

end Slots

end Chanos.Lib

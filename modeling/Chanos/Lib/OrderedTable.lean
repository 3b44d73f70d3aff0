import Mathlib.Data.List.TakeWhile
import Chanos.Lib.BoundedMap

/-!
# Tables in the order of their buckets

A table of entries that have different keys, with room for a number of them. The entries stand in
the order of the buckets of their keys, and in a bucket in the order in which they were inserted, as
they do along the chains of a hash index.
-/

namespace Chanos.Lib

open List

variable {α κ : Type*}

structure OrderedTable (key : α → κ) (bucket : κ → ℕ) (cap : ℕ) where
  items : List α
  nodup : (items.map key).Nodup
  sorted : items.Pairwise fun a b => bucket (key a) ≤ bucket (key b)
  length_le : items.length ≤ cap

def swapKey [DecidableEq κ] (key : α → κ) (a x : α) : α := if key x = key a then a else x

theorem key_swapKey [DecidableEq κ] (key : α → κ) (a x : α) : key (swapKey key a x) = key x := by
  unfold swapKey
  split_ifs with h
  · exact h.symm
  · rfl

theorem toList_append_filterMap {β : Type*} (f : α → Option β) (x : α) (l : List α) :
    (f x).toList ++ l.filterMap f = (x :: l).filterMap f := by
  cases hx : f x with
  | none => rw [filterMap_cons_none hx, Option.toList_none, nil_append]
  | some y => rw [filterMap_cons_some hx, Option.toList_some, singleton_append]

namespace OrderedTable

variable {key : α → κ} {bucket : κ → ℕ} {cap : ℕ}

def empty : OrderedTable key bucket cap := ⟨[], nodup_nil, Pairwise.nil, Nat.zero_le _⟩

/-! ## The operations -/

section

variable [DecidableEq κ] (T : OrderedTable key bucket cap)

def erase (k : κ) : OrderedTable key bucket cap where
  items := T.items.filter fun x => key x ≠ k
  nodup := T.nodup.sublist (filter_sublist.map key)
  sorted := T.sorted.sublist filter_sublist
  length_le := (length_filter_le _ _).trans T.length_le

def update (a : α) : OrderedTable key bucket cap where
  items := T.items.map (swapKey key a)
  nodup := by
    rw [map_map, show key ∘ swapKey key a = key from funext (key_swapKey key a)]
    exact T.nodup
  sorted := by
    refine pairwise_map.mpr (T.sorted.imp fun {x y} h => ?_)
    rw [key_swapKey key a x, key_swapKey key a y]
    exact h
  length_le := by
    rw [length_map]
    exact T.length_le

def place (key : α → κ) (bucket : κ → ℕ) (a : α) (items : List α) : List α :=
  items.takeWhile (fun x => bucket (key x) ≤ bucket (key a)) ++
    a :: items.dropWhile fun x => bucket (key x) ≤ bucket (key a)

omit [DecidableEq κ] in
theorem place_perm (a : α) (items : List α) : (place key bucket a items).Perm (a :: items) := by
  refine perm_middle.trans ?_
  rw [takeWhile_append_dropWhile]

omit [DecidableEq κ] in
theorem lt_of_mem_dropWhile {items : List α}
    (h : items.Pairwise fun a b => bucket (key a) ≤ bucket (key b)) {b : ℕ} {x : α}
    (hx : x ∈ items.dropWhile fun y => bucket (key y) ≤ b) : b < bucket (key x) := by
  induction items with
  | nil => simp at hx
  | cons y l ih =>
    obtain ⟨hy, hl⟩ := pairwise_cons.mp h
    rw [dropWhile_cons] at hx
    split_ifs at hx with hle
    · exact ih hl hx
    · have hlt : b < bucket (key y) := by simpa using hle
      rcases mem_cons.mp hx with rfl | hx
      · exact hlt
      · exact lt_of_lt_of_le hlt (hy x hx)

def insert (a : α) : OrderedTable key bucket cap × Bool :=
  if hmem : key a ∈ T.items.map key then (T.update a, true)
  else if hrm : T.items.length < cap then
    ({ items := place key bucket a T.items
       nodup := by
         refine ((place_perm a T.items).map key).nodup_iff.mpr ?_
         exact nodup_cons.mpr ⟨hmem, T.nodup⟩
       sorted := by
         refine pairwise_append.mpr ⟨T.sorted.sublist (takeWhile_sublist _),
           pairwise_cons.mpr ⟨fun x hx => (lt_of_mem_dropWhile T.sorted hx).le,
             T.sorted.sublist (dropWhile_sublist _)⟩, fun x hx y hy => ?_⟩
         have hle : bucket (key x) ≤ bucket (key a) := by simpa using mem_takeWhile_imp hx
         rcases mem_cons.mp hy with rfl | hy
         · exact hle
         · exact hle.trans (lt_of_mem_dropWhile T.sorted hy).le
       length_le := by
         rw [(place_perm a T.items).length_eq, length_cons]
         exact hrm }, true)
  else (T, false)

def search (b : ℕ) (p : α → Bool) : Option α :=
  T.items.find? fun x => decide (bucket (key x) = b) && p x

def head : Option α := T.items.head?

def headKey (b : ℕ) : Option α := T.search b fun _ => true

def next (a : α) : Option α :=
  match T.items.dropWhile fun x => key x ≠ key a with
  | _ :: rest => rest.head?
  | [] => T.items.find? fun x => bucket (key a) < bucket (key x)

def requeue (a : α) : OrderedTable key bucket cap :=
  if key a ∈ T.items.map key then ((T.erase (key a)).insert a).1 else T

def traversal (filter : α → Bool)
    (processor : OrderedTable key bucket cap → α → OrderedTable key bucket cap) :
    OrderedTable key bucket cap :=
  (T.items.filter filter).foldl processor T

end

section

variable {T : OrderedTable key bucket cap} {a x : α} {k : κ} {b : ℕ} {p : α → Bool}

theorem eq_of_key_eq (ha : a ∈ T.items) (hx : x ∈ T.items) (h : key a = key x) : a = x :=
  inj_on_of_nodup_map T.nodup ha hx h

theorem mem_of_search (h : T.search b p = some x) : x ∈ T.items ∧ p x = true := by
  have hp := find?_some h
  rw [Bool.and_eq_true] at hp
  exact ⟨mem_of_find?_eq_some h, hp.2⟩

theorem search_eq_none_iff :
    T.search b p = none ↔ ∀ x ∈ T.items, bucket (key x) = b → p x ≠ true := by
  rw [search, find?_eq_none]
  refine forall₂_congr fun x _ => ?_
  rw [Bool.and_eq_true, decide_eq_true_eq, not_and]

variable [DecidableEq κ]

theorem mem_erase : x ∈ (T.erase k).items ↔ x ∈ T.items ∧ key x ≠ k := by
  rw [erase, mem_filter, decide_eq_true_eq]

theorem mem_update :
    x ∈ (T.update a).items ↔ (x ∈ T.items ∧ key x ≠ key a) ∨ (x = a ∧ ∃ y ∈ T.items, key y = key a) := by
  rw [update, mem_map]
  constructor
  · rintro ⟨y, hy, rfl⟩
    unfold swapKey
    split_ifs with hke
    · exact .inr ⟨rfl, y, hy, hke⟩
    · exact .inl ⟨hy, hke⟩
  · rintro (⟨hx, hke⟩ | ⟨rfl, y, hy, hke⟩)
    · exact ⟨x, hx, if_neg hke⟩
    · exact ⟨y, hy, if_pos hke⟩

theorem mem_insert : x ∈ (T.insert a).1.items ↔
    if (T.insert a).2 then x = a ∨ x ∈ T.items ∧ key x ≠ key a else x ∈ T.items := by
  by_cases hk : key a ∈ T.items.map key
  · rw [insert, dif_pos hk, if_pos rfl, mem_update, or_comm, and_iff_left (mem_map.mp hk)]
  · by_cases hr : T.items.length < cap
    · rw [insert, dif_neg hk, dif_pos hr, if_pos rfl]
      refine (place_perm a T.items).mem_iff.trans (mem_cons.trans ?_)
      refine or_congr_right (iff_self_and.mpr fun hx hxa => hk ?_)
      rw [← hxa]
      exact mem_map_of_mem hx
    · rw [insert, dif_neg hk, dif_neg hr, if_neg Bool.false_ne_true]

theorem mem_insert_fst (h : x ∈ (T.insert a).1.items) : x = a ∨ x ∈ T.items := by
  rw [mem_insert] at h
  split_ifs at h
  · exact h.imp_right And.left
  · exact .inr h

theorem mem_insert_of_ne (hx : x ∈ T.items) (hke : key x ≠ key a) : x ∈ (T.insert a).1.items := by
  rw [mem_insert]
  split_ifs
  · exact .inr ⟨hx, hke⟩
  · exact hx

end

section

variable {T : OrderedTable key bucket cap} {a x : α} {pre post : List α}

theorem key_ne_of_split (h : T.items = pre ++ x :: post) (ha : a ∈ pre ∨ a ∈ post) :
    key a ≠ key x := by
  have hn := T.nodup
  rw [h, map_append, map_cons, nodup_append, nodup_cons] at hn
  obtain ⟨-, ⟨hp, -⟩, hpr⟩ := hn
  rcases ha with ha | ha
  · exact hpr _ (mem_map_of_mem ha) _ mem_cons_self
  · intro heq
    rw [← heq] at hp
    exact hp (mem_map_of_mem ha)

theorem headKey_split (T : OrderedTable key bucket cap) (b : ℕ) :
    ∃ pre rest, T.items = pre ++ rest ∧ T.headKey b = rest.head? := by
  cases h : T.headKey b with
  | none => exact ⟨T.items, [], (append_nil _).symm, rfl⟩
  | some x =>
    obtain ⟨-, pre, post, hi, -⟩ := find?_eq_some_iff_append.mp h
    exact ⟨pre, x :: post, hi, rfl⟩

variable [DecidableEq κ]

theorem erase_split (h : T.items = pre ++ x :: post) : (T.erase (key x)).items = pre ++ post := by
  have hkp : ∀ l : List α, (∀ a ∈ l, a ∈ pre ∨ a ∈ post) →
      (l.filter fun a => key a ≠ key x) = l := by
    intro l hl
    exact filter_eq_self.mpr fun a ha => decide_eq_true (key_ne_of_split h (hl a ha))
  change (T.items.filter fun a => key a ≠ key x) = pre ++ post
  rw [h, filter_append, filter_cons_of_neg (by simp), hkp pre fun _ ha => .inl ha,
    hkp post fun _ ha => .inr ha]

theorem update_split (h : T.items = pre ++ x :: post) (hke : key a = key x) :
    (T.update a).items = pre ++ a :: post := by
  have hkp : ∀ l : List α, (∀ y ∈ l, y ∈ pre ∨ y ∈ post) → l.map (swapKey key a) = l := by
    intro l hl
    refine (map_congr_left fun y hy => ?_).trans (map_id l)
    refine if_neg ?_
    rw [hke]
    exact key_ne_of_split h (hl y hy)
  change T.items.map (swapKey key a) = pre ++ a :: post
  rw [h, map_append, map_cons, hkp pre fun _ ha => .inl ha,
    hkp post fun _ ha => .inr ha, swapKey, if_pos hke.symm]

omit [DecidableEq κ] in
/-- A traversal that replaces each entry by another one or none. -/
theorem items_traversal {processor : OrderedTable key bucket cap → α → OrderedTable key bucket cap}
    {f : α → Option α}
    (h : ∀ (T : OrderedTable key bucket cap) pre x post, T.items = pre ++ x :: post →
      (processor T x).items = pre ++ ((f x).toList ++ post))
    (T : OrderedTable key bucket cap) :
    (T.traversal (fun _ => true) processor).items = T.items.filterMap f := by
  -- The entries before those still to come are the new ones.
  have hrun : ∀ (post pre : List α) (T : OrderedTable key bucket cap), T.items = pre ++ post →
      (post.foldl processor T).items = pre ++ post.filterMap f := by
    intro post
    induction post with
    | nil => exact fun pre T h => h
    | cons x post ih =>
      intro pre T hT
      have hst := h T pre x post hT
      rw [← append_assoc] at hst
      rw [foldl_cons, ih _ _ hst, append_assoc, toList_append_filterMap]
  rw [traversal, filter_true]
  exact hrun T.items [] T rfl

theorem items_traversal_update {f : α → α} (hf : ∀ x, key (f x) = key x)
    (T : OrderedTable key bucket cap) :
    (T.traversal (fun _ => true) fun T x => T.update (f x)).items = T.items.map f := by
  rw [items_traversal (f := fun x => some (f x)) fun T pre x post h => update_split h (hf x),
    filterMap_eq_map']

theorem next_split (h : T.items = pre ++ x :: post) : T.next x = post.head? := by
  have hd : (T.items.dropWhile fun y => key y ≠ key x) = x :: post := by
    rw [h, dropWhile_append_of_pos fun y hy =>
      decide_eq_true (key_ne_of_split h (.inl hy)), dropWhile_cons_of_neg (by simp)]
  rw [next, hd]

end

/-- An entry entered anew differs from an updated one in its place only. -/
theorem requeue_perm [DecidableEq κ] {T : OrderedTable key bucket cap} {a : α}
    (h : key a ∈ T.items.map key) : (T.requeue a).items.Perm (T.update a).items := by
  obtain ⟨x, hx, hke⟩ := mem_map.mp h
  obtain ⟨pre, post, hi⟩ := append_of_mem hx
  have he : (T.erase (key a)).items = pre ++ post := by
    rw [← hke]
    exact erase_split hi
  have hn : key a ∉ (T.erase (key a)).items.map key := by
    intro hme
    obtain ⟨y, hy, hk⟩ := mem_map.mp hme
    exact (mem_erase.mp hy).2 hk
  have hr : (T.erase (key a)).items.length < cap := by
    have hle := T.length_le
    rw [hi, length_append, length_cons] at hle
    rw [he, length_append]
    omega
  rw [requeue, if_pos h, insert, dif_neg hn, dif_pos hr, update_split hi hke.symm]
  refine (place_perm a _).trans ?_
  rw [he]
  exact perm_middle.symm

/-! ## The map of a table -/

/-- The map has the entries of the table. -/
def Holds (T : OrderedTable key bucket cap) (m : BoundedMap κ α cap) : Prop :=
  ∀ k x, m.lookup k = some x ↔ x ∈ T.items ∧ key x = k

namespace Holds

variable {T : OrderedTable key bucket cap} {m : BoundedMap κ α cap} {a : α} {k : κ} (h : T.Holds m)
include h

theorem search {p : α → Bool} (hp : ∀ x, p x = true ↔ key x = k) :
    T.search (bucket k) p = m.lookup k := by
  cases hs : T.search (bucket k) p with
  | none =>
    refine (Option.eq_none_iff_forall_ne_some.mpr fun x hx => ?_).symm
    obtain ⟨hme, rfl⟩ := (h k x).mp hx
    exact search_eq_none_iff.mp hs x hme rfl ((hp x).mpr rfl)
  | some x =>
    obtain ⟨hx, hpx⟩ := mem_of_search hs
    exact ((h k x).mpr ⟨hx, (hp x).mp hpx⟩).symm

variable [DecidableEq κ]

theorem hasRoom_iff : m.HasRoom (key a) ↔ (T.insert a).2 = true := by
  have hke : m.keys = (T.items.map key).toFinset := by
    ext k
    rw [m.mem_keys, Option.isSome_iff_exists, mem_toFinset, mem_map]
    exact exists_congr (h k)
  rw [BoundedMap.HasRoom, hke, toFinset_card_of_nodup T.nodup, length_map, mem_toFinset,
    OrderedTable.insert]
  split_ifs with hk hr <;> simp only [*, true_or, or_true, or_self]

theorem erase (k : κ) : (T.erase k).Holds (m.erase k) := by
  intro k' x
  rw [BoundedMap.lookup_erase, mem_erase]
  split_ifs with hk
  · exact iff_of_false id fun hx => hx.1.2 (hx.2.trans hk)
  · rw [h, and_right_comm, iff_self_and]
    exact fun hx hxk => hk (hx.2.symm.trans hxk)

theorem insert (a : α) : (T.insert a).1.Holds (m.put (key a) a) := by
  intro k x
  rw [mem_insert]
  split_ifs with hr
  · rw [BoundedMap.lookup_put (h.hasRoom_iff.mpr hr)]
    split_ifs with hk
    · grind
    · rw [h]
      grind
  · rw [BoundedMap.put, dif_neg (mt h.hasRoom_iff.mp hr), h]

end Holds

/-! ## Steps that add no key -/

section

variable {T T' T'' : OrderedTable key bucket cap}

def Shrinks (T T' : OrderedTable key bucket cap) : Prop := T'.items.map key ⊆ T.items.map key

theorem Shrinks.refl (T : OrderedTable key bucket cap) : T.Shrinks T := Subset.refl _

theorem Shrinks.trans (h : T.Shrinks T') (h' : T'.Shrinks T'') : T.Shrinks T'' := Subset.trans h' h

section

variable {processor : OrderedTable key bucket cap → α → OrderedTable key bucket cap}

theorem traversal_keeps {P : OrderedTable key bucket cap → Prop}
    (h : ∀ T x, P T → P (processor T x)) (filter : α → Bool) (hT : P T) :
    P (T.traversal filter processor) := by
  unfold traversal
  generalize T.items.filter filter = l
  induction l generalizing T with
  | nil => exact hT
  | cons x l ih => exact ih (h T x hT)

theorem shrinks_traversal
    (h : ∀ T x, Shrinks T (processor T x)) (filter : α → Bool) (T : OrderedTable key bucket cap) :
    T.Shrinks (T.traversal filter processor) :=
  traversal_keeps (fun T' x hT' => hT'.trans (h T' x)) filter (Shrinks.refl T)

end

variable [DecidableEq κ]

section

variable (T : OrderedTable key bucket cap)

theorem shrinks_erase (k : κ) : T.Shrinks (T.erase k) :=
  map_subset key (filter_subset_self T.items)

theorem shrinks_update (a : α) : T.Shrinks (T.update a) := by
  have hke : (T.update a).items.map key = T.items.map key := by
    change (T.items.map (swapKey key a)).map key = T.items.map key
    rw [map_map, show key ∘ swapKey key a = key from funext (key_swapKey key a)]
  intro k hk
  rw [hke] at hk
  exact hk

theorem map_key_insert_subset (a : α) :
    (T.insert a).1.items.map key ⊆ key a :: T.items.map key := by
  intro k hk
  obtain ⟨x, hx, rfl⟩ := mem_map.mp hk
  rcases mem_insert_fst hx with rfl | hx
  · exact mem_cons_self
  · exact mem_cons_of_mem _ (mem_map_of_mem hx)

theorem shrinks_requeue (a : α) : T.Shrinks (T.requeue a) := by
  unfold requeue
  split_ifs with hme
  · refine Subset.trans (map_key_insert_subset _ a) (cons_subset.mpr ⟨hme, ?_⟩)
    exact shrinks_erase T (key a)
  · exact Shrinks.refl T

end

end

end OrderedTable

end Chanos.Lib

import Mathlib.Tactic

/-!
# Bucket chains over a table of records

An index that hashes records into buckets keeps for each bucket a chain of identifiers. A walk along
the chain reads the records into one buffer, so a node whose record is gone leaves in the buffer
what was there before; `scan`, `unlink` and `link` say what happens on a stale node too.
-/

namespace Chanos.Lib

open List Option Function

variable {ι α β : Type*}

section

variable (get : ι → Option α) (p : α → Bool) {id : ι}

def scan : α → List ι → Option (ι × α)
  | _, [] => none
  | buf, x :: xs =>
    let buf := (get x).getD buf
    if p buf then some (x, buf) else scan buf xs

def unlink : α → List ι → List ι
  | _, [] => []
  | buf, x :: xs =>
    let buf := (get x).getD buf
    if p buf then xs else x :: unlink buf xs

def link (id : ι) : α → List ι → List ι
  | _, [] => [id]
  | buf, x :: xs =>
    let buf := (get x).getD buf
    if p buf then id :: x :: xs else x :: link id buf xs

variable {get p} {buf : α} {l : List ι}

theorem mem_of_scan {x : α} (h : scan get p buf l = some (id, x)) :
    id ∈ l ∧ p x = true ∧ (get id = some x ∨ get id = none) := by
  induction l generalizing buf with
  | nil => simp [scan] at h
  | cons y ys ih =>
    rw [scan] at h
    split_ifs at h with hp
    · obtain ⟨rfl, rfl⟩ : y = id ∧ (get y).getD buf = x := by simpa using h
      refine ⟨mem_cons_self, hp, ?_⟩
      cases hy : get y with
      | none => exact Or.inr rfl
      | some z => exact Or.inl (by rw [getD_some])
    · obtain ⟨hm, hx⟩ := ih h
      exact ⟨mem_cons_of_mem _ hm, hx⟩

theorem of_scan_eq_none (h : scan get p buf l = none) (hid : id ∈ l) {x : α}
    (hx : get id = some x) : p x = false := by
  induction l generalizing buf with
  | nil => simp at hid
  | cons y ys ih =>
    rw [scan] at h
    split_ifs at h with hp
    rcases mem_cons.mp hid with rfl | hid
    · rw [hx, getD_some] at hp
      exact Bool.eq_false_iff.mpr hp
    · exact ih h hid

theorem scan_congr {get' : ι → Option α} (h : ∀ id ∈ l, get id = get' id) :
    scan get p buf l = scan get' p buf l := by
  induction l generalizing buf with
  | nil => rfl
  | cons y ys ih =>
    rw [scan, scan, h y mem_cons_self, ih fun id hid => h id (mem_cons_of_mem _ hid)]

section

variable (h : ∀ id ∈ l, (get id).isSome = true)
include h

theorem scan_buf (buf' : α) : scan get p buf l = scan get p buf' l := by
  cases l with
  | nil => rfl
  | cons y ys =>
    obtain ⟨x, hx⟩ := isSome_iff_exists.mp (h y mem_cons_self)
    rw [scan, scan, hx]
    rfl

theorem unlink_buf (buf' : α) : unlink get p buf l = unlink get p buf' l := by
  cases l with
  | nil => rfl
  | cons y ys =>
    obtain ⟨x, hx⟩ := isSome_iff_exists.mp (h y mem_cons_self)
    rw [unlink, unlink, hx]
    rfl

end

def AddedTo (id : ι) (l l' : List ι) : Prop := ∃ l₁ l₂, l = l₁ ++ l₂ ∧ l' = l₁ ++ id :: l₂

theorem AddedTo.perm {l' : List ι} (h : AddedTo id l l') : l'.Perm (id :: l) := by
  obtain ⟨l₁, l₂, rfl, rfl⟩ := h
  exact perm_middle

theorem AddedTo.cons {l' : List ι} (h : AddedTo id l l') (y : ι) :
    AddedTo id (y :: l) (y :: l') := by
  obtain ⟨l₁, l₂, rfl, rfl⟩ := h
  exact ⟨y :: l₁, l₂, rfl, rfl⟩

theorem addedTo_concat (id : ι) (l : List ι) : AddedTo id l (l ++ [id]) :=
  ⟨l, [], (append_nil l).symm, rfl⟩

theorem link_addedTo (id : ι) : AddedTo id l (link get p id buf l) := by
  induction l generalizing buf with
  | nil => exact ⟨[], [], rfl, rfl⟩
  | cons y ys ih =>
    rw [link]
    split_ifs
    · exact ⟨[], y :: ys, rfl, rfl⟩
    · exact ih.cons y

theorem link_of_scan_eq_none (id : ι) (h : scan get p buf l = none) :
    link get p id buf l = l ++ [id] := by
  induction l generalizing buf with
  | nil => rfl
  | cons y ys ih =>
    rw [scan] at h
    rw [link]
    split_ifs at h ⊢
    rw [ih h, cons_append]

theorem unlink_addedTo {x : α} (h : scan get p buf l = some (id, x)) :
    AddedTo id (unlink get p buf l) l := by
  induction l generalizing buf with
  | nil => simp [scan] at h
  | cons y ys ih =>
    rw [scan] at h
    rw [unlink]
    split_ifs at h ⊢
    · obtain ⟨rfl, -⟩ : y = id ∧ (get y).getD buf = x := by simpa using h
      exact ⟨[], ys, rfl, rfl⟩
    · exact (ih h).cons y

end

/-! ## The soundness of an index -/

/-- A bucket function and a comparison that fit together: the comparison is an equivalence, and
records that compare equal hash to the same bucket, which exists. -/
structure Keyed (bucket : α → Option β) (cmp : α → α → Bool) : Prop where
  refl : ∀ a, cmp a a = true
  symm : ∀ {a b}, cmp a b = true → cmp b a = true
  trans : ∀ {a b c}, cmp a b = true → cmp b c = true → cmp a c = true
  bucket_eq : ∀ {a b}, cmp a b = true → bucket a = bucket b
  inRange : ∀ a, (bucket a).isSome = true

/-- A comparison that is an equivalence, and a bucket function that has a bucket for every record.
-/
structure Compared (bucket : α → Option β) (cmp : α → α → Bool) : Prop where
  refl : ∀ a, cmp a a = true
  symm : ∀ {a b}, cmp a b = true → cmp b a = true
  inRange : ∀ a, (bucket a).isSome = true

section

variable {bucket : α → Option β} {cmp : α → α → Bool}

theorem Keyed.compared (h : Keyed bucket cmp) :
    Compared bucket cmp :=
  ⟨h.refl, h.symm, h.inRange⟩

theorem Keyed.of_key {κ : Type*} (key : α → κ)
    (hcmp : ∀ a b, cmp a b = true ↔ key a = key b) (hb : ∀ a b, key a = key b → bucket a = bucket b)
    (hr : ∀ a, (bucket a).isSome = true) : Keyed bucket cmp where
  refl a := (hcmp a a).mpr rfl
  symm h := (hcmp _ _).mpr ((hcmp _ _).mp h).symm
  trans h h' := (hcmp _ _).mpr (((hcmp _ _).mp h).trans ((hcmp _ _).mp h'))
  bucket_eq h := hb _ _ ((hcmp _ _).mp h)
  inRange := hr

end

def Distinct (cmp : α → α → Bool) (get : ι → Option α) : Prop :=
  ∀ ⦃i j a b⦄, get i = some a → get j = some b → cmp a b = true → i = j

variable [DecidableEq ι] [DecidableEq β] (bucket : α → Option β)

def Indexed (get : ι → Option α) (chains : β → List ι) : Prop :=
  ∀ b id, (chains b).count id = if (get id).bind bucket = some b then 1 else 0

def NodeAdded (id : ι) (d : α) (chains chains' : β → List ι) : Prop :=
  ∃ b l, bucket d = some b ∧ AddedTo id (chains b) l ∧ chains' = update chains b l

def NodeRemoved (id : ι) (d : α) (chains chains' : β → List ι) : Prop :=
  ∃ b l, bucket d = some b ∧ AddedTo id l (chains b) ∧ chains' = update chains b l

omit [DecidableEq ι] in
theorem NodeRemoved.added {bucket : α → Option β} {id : ι} {d : α} {chains chains' : β → List ι}
    (h : NodeRemoved bucket id d chains chains') : NodeAdded bucket id d chains' chains := by
  obtain ⟨b, l, hb, hl, rfl⟩ := h
  exact ⟨b, chains b, hb, by rwa [update_self], by rw [update_idem, update_eq_self]⟩

namespace Indexed

variable {bucket : α → Option β} {cmp : α → α → Bool} {get : ι → Option α}
  {chains chains' : β → List ι} {b : β} {id : ι} {d d' : α}

variable (h : Indexed bucket get chains)

include h in
theorem mem_iff : id ∈ chains b ↔ ∃ d, get id = some d ∧ bucket d = some b := by
  rw [← count_pos_iff, h b id]
  cases hd : get id with
  | none => simp
  | some d => by_cases hb : bucket d = some b <;> simp [hb]

theorem empty (hget : ∀ id, get id = none) (hc : ∀ b, chains b = []) :
    Indexed bucket get chains := by
  intro b id
  rw [hc, hget, count_nil, bind_none, if_neg (by simp)]

omit h in
/-- A chain gets the node of an entry together with the entry. -/
theorem added_iff (hid : get id = none) (ha : NodeAdded bucket id d chains chains') :
    Indexed bucket (update get id (some d)) chains' ↔ Indexed bucket get chains := by
  obtain ⟨b, l, hb, hl, rfl⟩ := ha
  refine forall₂_congr fun c j => ?_
  by_cases hj : j = id
  · subst hj
    rw [hid, bind_none, if_neg (Option.some_ne_none c).symm, update_self, bind_some, hb]
    by_cases hc : c = b
    · subst hc
      rw [update_self, hl.perm.count_eq, count_cons_self, if_pos rfl, Nat.add_eq_right]
    · rw [update_of_ne hc, if_neg (by simpa using Ne.symm hc)]
  · rw [update_of_ne hj]
    by_cases hc : c = b
    · subst hc
      rw [update_self, hl.perm.count_eq, count_cons_of_ne (Ne.symm hj)]
    · rw [update_of_ne hc]

include h in
theorem insert (hid : get id = none) (ha : NodeAdded bucket id d chains chains') :
    Indexed bucket (update get id (some d)) chains' :=
  (added_iff hid ha).mpr h

include h in
theorem remove (hd : get id = some d) (hr : NodeRemoved bucket id d chains chains') :
    Indexed bucket (update get id none) chains' := by
  refine (added_iff (update_self ..) hr.added).mp ?_
  rwa [update_idem, ← hd, update_eq_self]

include h in
theorem rewrite (hd : get id = some d) (hb : bucket d' = bucket d) :
    Indexed bucket (update get id (some d')) chains := by
  intro c j
  rw [h c j]
  by_cases hj : j = id
  · subst hj
    rw [update_self, hd, bind_some, bind_some, hb]
  · rw [update_of_ne hj]

include h in
theorem of_scan {p : α → Bool} {buf x : α} (hs : scan get p buf (chains b) = some (id, x)) :
    get id = some x ∧ p x = true ∧ bucket x = some b := by
  obtain ⟨hm, hp, hx⟩ := mem_of_scan hs
  obtain ⟨d, hd, hb⟩ := h.mem_iff.mp hm
  rcases hx with hx | hx
  · obtain rfl : d = x := mem_unique hd hx
    exact ⟨hx, hp, hb⟩
  · rw [hd] at hx
    simp at hx

include h in
theorem scan_self (hc : Compared bucket cmp) (hd : Distinct cmp get) (hid : get id = some d)
    (hb : bucket d = some b) {buf : α} : scan get (cmp d) buf (chains b) = some (id, d) := by
  have hme : id ∈ chains b := h.mem_iff.mpr ⟨d, hid, hb⟩
  cases hs : scan get (cmp d) buf (chains b) with
  | none =>
    have hse := hc.refl d
    rw [of_scan_eq_none hs hme hid] at hse
    simp at hse
  | some r =>
    obtain ⟨j, y⟩ := r
    obtain ⟨hy, hcmp, -⟩ := h.of_scan hs
    obtain rfl := hd hid hy hcmp
    rw [hid] at hy
    rw [some.inj hy]

include h in
theorem scan_eq_some_iff (hk : Keyed bucket cmp)
    (hd : Distinct cmp get) (hb : bucket d = some b) {buf x : α} :
    scan get (cmp d) buf (chains b) = some (id, x) ↔ get id = some x ∧ cmp d x = true := by
  constructor
  · intro hs
    obtain ⟨hx, hp, -⟩ := h.of_scan hs
    exact ⟨hx, hp⟩
  · rintro ⟨hx, hp⟩
    have hme : id ∈ chains b := h.mem_iff.mpr ⟨x, hx, by rw [← hk.bucket_eq hp, hb]⟩
    cases hs : scan get (cmp d) buf (chains b) with
    | none =>
      rw [of_scan_eq_none hs hme hx] at hp
      simp at hp
    | some r =>
      obtain ⟨j, y⟩ := r
      obtain ⟨hy, hpy, -⟩ := h.of_scan hs
      -- Both records compare equal to `d`, so they are the same one.
      obtain rfl := hd hx hy (hk.trans (hk.symm hp) hpy)
      rw [hx] at hy
      rw [some.inj hy]

end Indexed

end Chanos.Lib

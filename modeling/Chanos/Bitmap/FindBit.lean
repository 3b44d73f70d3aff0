import Chanos.Lib.BitArray

/-!
# Searching bit arrays

The functions of `npd_bitarray.c` that look for the first or the next set or clear bit of an array
of `unsigned long`, and the loop `npd_for_each_bit` of every walk over a VLAN or port bitmap. A word
has `NPD_BITS_PER_LONG`, 32 bits.
-/

namespace Chanos.Bitmap

open Lib List Nat Option
variable {addr : List Ulong} {size : ℕ} {word : Ulong}

abbrev Ulong : Type := BitVec 32

/-! ## The lowest bit of a word -/

def ffsStep (k : ℕ) (s : ℕ × Ulong) : ℕ × Ulong :=
  if s.2 &&& BitVec.ofNat 32 (2 ^ k - 1) = 0#32 then (s.1 + k, s.2 >>> k) else s

def npdFfs (word : Ulong) : ℕ :=
  (ffsStep 1 (ffsStep 2 (ffsStep 4 (ffsStep 8 (ffsStep 16 (0, word)))))).1

def npdFfz (x : Ulong) : ℕ := npdFfs (~~~x)

/-- What is left of a word after some steps: the bits counted so far are zero, and the lowest of the
others is one of the lowest `k`. -/
structure FfsState (word : Ulong) (k : ℕ) (s : ℕ × Ulong) : Prop where
  below : ∀ m < s.1, word.getLsbD m = false
  rest : ∀ m, s.2.getLsbD m = word.getLsbD (s.1 + m)
  exists_lt : ∃ m < k, s.2.getLsbD m = true

theorem FfsState.step {k : ℕ} {s : ℕ × Ulong} (h : FfsState word (k + k) s)
    (hk : k ≤ 32) : FfsState word k (ffsStep k s) := by
  obtain ⟨n, hn, hb⟩ := h.exists_lt
  unfold ffsStep
  split
  next hlo =>
    have hlo := (and_low_eq_zero_iff hk).mp hlo
    refine ⟨fun m hm => ?_, fun m => ?_, ?_⟩
    · rcases lt_or_ge m s.1 with hlt | hge
      · exact h.below m hlt
      -- The bit is one of those shifted out now.
      have := h.rest (m - s.1)
      rw [hlo (m - s.1) (by omega), Nat.add_sub_cancel' hge] at this
      exact this.symm
    · rw [BitVec.getLsbD_ushiftRight, h.rest, add_assoc]
    · have hge : k ≤ n := by
        by_contra hlt
        rw [hlo n (not_le.mp hlt)] at hb
        cases hb
      refine ⟨n - k, by omega, ?_⟩
      rw [BitVec.getLsbD_ushiftRight, Nat.add_sub_cancel' hge, hb]
  next hlo =>
    refine ⟨h.below, h.rest, ?_⟩
    by_contra hno
    push Not at hno
    exact hlo ((and_low_eq_zero_iff hk).mpr fun m hm => Bool.eq_false_iff.mpr (hno m hm))

theorem npdFfs_lowest (h : word ≠ 0#32) : Lowest word (npdFfs word) := by
  have hst : FfsState word (16 + 16) (0, word) :=
    ⟨fun _ hm => absurd hm (not_lt_zero _), fun m => by rw [zero_add], exists_getLsbD h⟩
  have h16 : FfsState word (8 + 8) _ := hst.step (by decide)
  have h8 : FfsState word (4 + 4) _ := h16.step (by decide)
  have h4 : FfsState word (2 + 2) _ := h8.step (by decide)
  have h2 : FfsState word (1 + 1) _ := h4.step (by decide)
  have h1 : FfsState word 1 _ := h2.step (by decide)
  obtain ⟨m, hm, hb⟩ := h1.exists_lt
  obtain rfl : m = 0 := by omega
  rw [h1.rest, add_zero] at hb
  exact ⟨hb, h1.below⟩

theorem npdFfs_lt (h : word ≠ 0#32) : npdFfs word < 32 := by
  by_contra hge
  have hb := (npdFfs_lowest h).1
  rw [BitVec.getLsbD_of_ge _ _ (not_lt.mp hge)] at hb
  cases hb

/-! ## The functions -/

def ones : Ulong := BitVec.allOnes 32

variable (tmp : Ulong)

def foundFirst (size result : ℕ) : ℕ :=
  let tmp := tmp &&& (ones >>> (32 - size))
  if tmp = 0#32 then result + size else result + npdFfs tmp

def foundFirstZero (size result : ℕ) : ℕ :=
  let tmp := tmp ||| (ones <<< size)
  if tmp = ones then result + size else result + npdFfz tmp

def searchWords (hit : Ulong → Option ℕ) (last : Ulong → ℕ → ℕ → ℕ) (p : List Ulong)
    (size result : ℕ) : Option ℕ :=
  if 32 ≤ size then
    match p with
    | [] => none
    | tmp :: p =>
      match hit tmp with
      | some n => some (result + n)
      | none => searchWords hit last p (size - 32) (result + 32)
  else if size = 0 then some result
  else p.head?.map fun tmp => last tmp size result

def hitBit : Option ℕ := if tmp ≠ 0#32 then some (npdFfs tmp) else none

def hitZeroBit : Option ℕ := if ~~~tmp ≠ 0#32 then some (npdFfz tmp) else none

def npdFindNextBit (addr : List Ulong) (size offset : ℕ) : Option ℕ :=
  let p := addr.drop (offset / 32)
  let result := offset / 32 * 32
  if size ≤ offset then some size
  else
    let size := size - result
    let offset := offset % 32
    if offset ≠ 0 then
      match p with
      | [] => none
      | tmp :: p =>
        let tmp := tmp &&& (ones <<< offset)
        if size < 32 then some (foundFirst tmp size result)
        else
          match hitBit tmp with
          | some n => some (result + n)
          | none => searchWords hitBit foundFirst p (size - 32) (result + 32)
    else searchWords hitBit foundFirst p size result

def npdFindNextZeroBit (addr : List Ulong) (size offset : ℕ) : Option ℕ :=
  let p := addr.drop (offset / 32)
  let result := offset / 32 * 32
  if size ≤ offset then some size
  else
    let size := size - result
    let offset := offset % 32
    if offset ≠ 0 then
      match p with
      | [] => none
      | tmp :: p =>
        let tmp := tmp ||| (ones >>> (32 - offset))
        if size < 32 then some (foundFirstZero tmp size result)
        else
          match hitZeroBit tmp with
          | some n => some (result + n)
          | none => searchWords hitZeroBit foundFirstZero p (size - 32) (result + 32)
    else searchWords hitZeroBit foundFirstZero p size result

def npdFindFirstBit (addr : List Ulong) (size : ℕ) : Option ℕ :=
  searchWords hitBit foundFirst addr size 0

def npdFindFirstZeroBit (addr : List Ulong) (size : ℕ) : Option ℕ :=
  searchWords hitZeroBit foundFirstZero addr size 0

inductive Turn (σ : Type)
  | next (s : σ)
  | stop (s : σ)

section

variable {σ : Type} (addr : List Ulong) (size : ℕ) (body : ℕ → σ → Turn σ)

def forEachBitFrom : ℕ → ℕ → σ → Option σ
  | 0, _, _ => none
  | fuel + 1, bit, s =>
    if bit < size then
      match body bit s with
      | .stop s => some s
      | .next s =>
        match npdFindNextBit addr size (bit + 1) with
        | none => none
        | some bit => forEachBitFrom fuel bit s
    else some s

def npdForEachBit (s : σ) : Option σ :=
  match npdFindFirstBit addr size with
  | none => none
  | some bit => forEachBitFrom addr size body (size + 1) bit s

end

theorem getLsbD_ones_shiftLeft (offset m : ℕ) :
    (ones <<< offset).getLsbD m = (decide (m < 32) && decide (offset ≤ m)) := by
  rw [ones, BitVec.getLsbD_shiftLeft, BitVec.getLsbD_allOnes]
  rcases lt_or_ge m 32 with hm | hm
  · rcases lt_or_ge m offset with ho | ho
    · simp [ho, not_le.mpr ho]
    · simp [hm, ho, not_lt.mpr ho, show m - offset < 32 by omega]
  · simp [not_lt.mpr hm]

theorem getLsbD_ones_ushiftRight (hsz : size ≤ 32) (m : ℕ) :
    (ones >>> (32 - size)).getLsbD m = decide (m < size) := by
  rw [ones, BitVec.getLsbD_ushiftRight, BitVec.getLsbD_allOnes]
  exact decide_eq_decide.mpr (by omega)

theorem not_ones_shiftLeft (hsz : size ≤ 32) : ~~~(ones <<< size) = ones >>> (32 - size) := by
  refine BitVec.eq_of_getLsbD_eq fun m hm => ?_
  rw [BitVec.getLsbD_not, getLsbD_ones_shiftLeft, getLsbD_ones_ushiftRight hsz]
  rcases lt_or_ge m size with h | h
  · simp [hm, h, not_le.mpr h]
  · simp [hm, h, not_lt.mpr h]

theorem not_or_ones_shiftLeft (x : Ulong) (hsz : size ≤ 32) :
    ~~~(x ||| (ones <<< size)) = ~~~x &&& (ones >>> (32 - size)) := by
  rw [BitVec.not_or, not_ones_shiftLeft hsz]

theorem not_or_ones_ushiftRight (x : Ulong) {offset : ℕ} (ho : offset ≤ 32) :
    ~~~(x ||| (ones >>> (32 - offset))) = ~~~x &&& (ones <<< offset) := by
  rw [BitVec.not_or, ← not_ones_shiftLeft ho, BitVec.not_not]

/-! ## Clear bits are set bits of the complement -/

theorem foundFirstZero_eq (hsz : size ≤ 32) (result : ℕ) :
    foundFirstZero tmp size result = foundFirst (~~~tmp) size result := by
  have hma := not_or_ones_shiftLeft tmp hsz
  have ho : tmp ||| (ones <<< size) = ones ↔ ~~~tmp &&& (ones >>> (32 - size)) = 0#32 := by
    rw [← hma, ones, ← BitVec.not_zero, ← BitVec.not_eq_comm, eq_comm]
  unfold foundFirstZero foundFirst npdFfz
  simp only [ho, hma]

section

variable (hit : Ulong → Option ℕ) (last : Ulong → ℕ → ℕ → ℕ)
include hit

theorem searchWords_cons (tmp : Ulong) (p : List Ulong) (h : 32 ≤ size) (result : ℕ) :
    searchWords hit last (tmp :: p) size result =
      (hit tmp).elim (searchWords hit last p (size - 32) (result + 32)) fun n => some (result + n) := by
  rw [searchWords.eq_def, if_pos h]
  dsimp only
  cases hit tmp <;> rfl

theorem searchWords_last (p : List Ulong) (h : size < 32) (hp : size ≠ 0) (result : ℕ) :
    searchWords hit last p size result = p.head?.map fun tmp => last tmp size result := by
  rw [searchWords.eq_def, if_neg (not_le.mpr h), if_neg hp]

theorem searchWords_done (p : List Ulong)
    (result : ℕ) : searchWords hit last p 0 result = some result := by
  rw [searchWords.eq_def]
  rfl

end

theorem searchWords_zero (p : List Ulong) (size result : ℕ) :
    searchWords hitZeroBit foundFirstZero p size result =
      searchWords hitBit foundFirst (p.map (~~~·)) size result := by
  induction p generalizing size result with
  | nil =>
    unfold searchWords
    simp only [map_nil, head?_nil, map_none]
  | cons tmp p ih =>
    have hh : hitZeroBit tmp = hitBit (~~~tmp) := rfl
    rw [map_cons]
    rcases lt_or_ge size 32 with hsz | hsz
    · rcases Nat.eq_zero_or_pos size with rfl | hp
      · rw [searchWords_done, searchWords_done]
      · rw [searchWords_last _ _ _ hsz hp.ne', searchWords_last _ _ _ hsz hp.ne',
          head?_cons, head?_cons, map_some, map_some,
          foundFirstZero_eq tmp hsz.le]
    · rw [searchWords_cons _ _ _ _ hsz, searchWords_cons _ _ _ _ hsz, ih, hh]

theorem findNextZeroBit_eq (addr : List Ulong) (size offset : ℕ) :
    npdFindNextZeroBit addr size offset = npdFindNextBit (addr.map (~~~·)) size offset := by
  unfold npdFindNextZeroBit npdFindNextBit
  dsimp only
  split
  · rfl
  rw [← map_drop]
  split
  · cases addr.drop (offset / 32) with
    | nil => rfl
    | cons tmp p =>
      have hma := not_or_ones_ushiftRight tmp (mod_lt offset (by decide : 0 < 32)).le
      simp only [map_cons, hitZeroBit, hitBit, npdFfz, hma, searchWords_zero]
      split
      · rw [foundFirstZero_eq _ (by omega), hma]
      · rfl
  · exact searchWords_zero _ _ _

theorem findFirstBit_eq (addr : List Ulong) (size : ℕ) :
    npdFindFirstBit addr size = npdFindNextBit addr size 0 := by
  unfold npdFindFirstBit npdFindNextBit
  split
  next h =>
    obtain rfl := le_zero.mp h
    unfold searchWords
    rfl
  next => rfl

theorem findFirstZeroBit_eq (addr : List Ulong) (size : ℕ) :
    npdFindFirstZeroBit addr size = npdFindNextBit (addr.map (~~~·)) size 0 := by
  rw [← findFirstBit_eq]
  exact searchWords_zero _ _ _

/-! ## The search for a set bit -/

theorem foundFirst_spec (hsz : size ≤ 32) (result : ℕ) :
    ∃ r, foundFirst tmp size result = result + r ∧
      IsNext (fun k => tmp.getLsbD k = true) 0 size r := by
  have hma : ∀ m, (tmp &&& (ones >>> (32 - size))).getLsbD m =
      (tmp.getLsbD m && decide (m < size)) := fun m => by
    rw [BitVec.getLsbD_and, getLsbD_ones_ushiftRight hsz]
  unfold foundFirst
  dsimp only
  split
  next hz =>
    refine ⟨size, rfl, isNext_stop fun k _ hk hb => ?_⟩
    have := hma k
    rw [hz, BitVec.getLsbD_zero, hb, decide_eq_true hk] at this
    cases this
  next hne =>
    obtain ⟨hb, hbe⟩ := npdFfs_lowest hne
    rw [hma, Bool.and_eq_true, decide_eq_true_eq] at hb
    refine ⟨_, rfl, isNext_found (fun k _ hk ht => ?_) (zero_le _) hb.2 hb.1⟩
    have := hbe k hk
    rw [hma, ht, Bool.true_and, decide_eq_false_iff_not] at this
    exact this (hk.trans hb.2)

theorem isNext_cons {tmp : Ulong} {p : List Ulong} {size r : ℕ} (hfu : 32 ≤ size)
    (hn : IsNext (fun k => bitOf p k = true) 0 (size - 32) r) :
    IsNext (fun k => bitOf (tmp :: p) k = true) 32 size (32 + r) := by
  have hsh : IsNext (fun k => bitOf (tmp :: p) k = true) (32 + 0) (32 + (size - 32)) (32 + r) := by
    refine IsNext.shift ?_
    simp only [bitOf_cons_add (by decide : 0 < 32)]
    exact hn
  rwa [Nat.add_sub_cancel' hfu] at hsh

theorem searchWords_spec (p : List Ulong) (hsz : size ≤ 32 * p.length) (result : ℕ) :
    ∃ r, searchWords hitBit foundFirst p size result = some (result + r) ∧
      IsNext (fun k => bitOf p k = true) 0 size r := by
  induction p generalizing size result with
  | nil =>
    obtain rfl : size = 0 := le_zero.mp hsz
    exact ⟨0, rfl, isNext_stop fun k _ hk => absurd hk (not_lt_zero _)⟩
  | cons tmp p ih =>
    have hf : ∀ k < 32, bitOf (tmp :: p) k = tmp.getLsbD k := fun k hk =>
      bitOf_cons_of_lt tmp p hk
    rw [length_cons] at hsz
    rcases lt_or_ge size 32 with hp | hfu
    · rcases Nat.eq_zero_or_pos size with rfl | hpo
      · exact ⟨0, searchWords_done _ _ _ _, isNext_stop fun k _ hk => absurd hk (not_lt_zero _)⟩
      -- Only a part of the word belongs to the array.
      obtain ⟨r, hr, hn⟩ := foundFirst_spec tmp hp.le result
      refine ⟨r, ?_, hn.congr fun k _ hk => ?_⟩
      · rw [searchWords_last _ _ _ hp hpo.ne', head?_cons, map_some, hr]
      · rw [hf k (hk.trans hp)]
    · rw [searchWords_cons _ _ _ _ hfu]
      by_cases ht : tmp = 0#32
      · -- A word without set bits: the search goes on in the others.
        have hrs : size - 32 ≤ 32 * p.length := by omega
        obtain ⟨r, hr, hn⟩ := ih hrs (result + 32)
        refine ⟨32 + r, ?_, (isNext_cons hfu hn).skip (zero_le _) fun k _ hk hb => ?_⟩
        · rw [show hitBit tmp = none from if_neg (not_not.mpr ht), elim_none, hr, add_assoc]
        · rw [hf k hk, ht, BitVec.getLsbD_zero] at hb
          cases hb
      · obtain ⟨hb, hbe⟩ := npdFfs_lowest ht
        have hlt := npdFfs_lt ht
        refine ⟨npdFfs tmp, ?_, isNext_found (fun k _ hk h => ?_) (zero_le _) (by omega) ?_⟩
        · rw [show hitBit tmp = some (npdFfs tmp) from if_pos ht, elim_some]
        · rw [hf k (by omega), hbe k hk] at h
          cases h
        · rw [hf _ hlt, hb]

theorem exists_drop_eq_cons {size offset : ℕ} (hsz : size ≤ 32 * addr.length)
    (hlt : offset < size) :
    ∃ tmp p, addr.drop (offset / 32) = tmp :: p ∧
      size - offset / 32 * 32 ≤ 32 * (p.length + 1) := by
  have hi : offset / 32 < addr.length := by omega
  refine ⟨_, _, drop_eq_getElem_cons hi, ?_⟩
  rw [length_drop]
  omega

theorem getLsbD_and_shiftLeft (offset m : ℕ) :
    (tmp &&& (ones <<< offset)).getLsbD m = (tmp.getLsbD m && decide (offset ≤ m)) := by
  rw [BitVec.getLsbD_and, getLsbD_ones_shiftLeft]
  rcases lt_or_ge m 32 with hm | hm
  · rw [decide_eq_true hm, Bool.true_and]
  · rw [BitVec.getLsbD_of_ge tmp m hm, Bool.false_and, Bool.false_and]

theorem findNextBit_words {size offset : ℕ} (hsz : size ≤ 32 * addr.length)
    (hlt : offset < size) :
    ∃ r, npdFindNextBit addr size offset = some (offset / 32 * 32 + r) ∧
      IsNext (fun k => bitOf (addr.drop (offset / 32)) k = true) (offset % 32)
        (size - offset / 32 * 32) r := by
  obtain ⟨tmp, p, hp, hlen⟩ := exists_drop_eq_cons hsz hlt
  -- The search is the one for the array whose first word has no bits before the start.
  have heq : npdFindNextBit addr size offset =
      searchWords hitBit foundFirst ((tmp &&& (ones <<< (offset % 32))) :: p)
        (size - offset / 32 * 32) (offset / 32 * 32) := by
    unfold npdFindNextBit
    rw [if_neg (not_le.mpr hlt), hp]
    by_cases hz : offset % 32 = 0
    · rw [if_neg (not_not.mpr hz), hz, BitVec.shiftLeft_zero, ones, BitVec.and_allOnes]
    · rw [if_pos hz]
      dsimp only
      rcases lt_or_ge (size - offset / 32 * 32) 32 with hpa | hfu
      · rw [if_pos hpa, searchWords_last _ _ _ hpa (by omega)]
        rfl
      · rw [if_neg (not_lt.mpr hfu), searchWords_cons _ _ _ _ hfu]
        cases hitBit (tmp &&& (ones <<< (offset % 32))) <;> rfl
  obtain ⟨r, hr, hn⟩ :=
    searchWords_spec ((tmp &&& (ones <<< (offset % 32))) :: p) hlen (offset / 32 * 32)
  refine ⟨r, heq.trans hr, (hn.congr fun k _ _ => ?_).of_le⟩
  rw [hp]
  rcases lt_or_ge k 32 with hk | hk
  · rw [bitOf_cons_of_lt _ _ hk, bitOf_cons_of_lt _ _ hk, getLsbD_and_shiftLeft, Bool.and_eq_true,
      decide_eq_true_eq, and_comm]
  · obtain ⟨j, rfl⟩ := Nat.exists_eq_add_of_le hk
    have ho : offset % 32 ≤ 32 + j := by omega
    rw [bitOf_cons_add (by decide), bitOf_cons_add (by decide), and_iff_right ho]

theorem findNextBit_spec (hsz : size ≤ 32 * addr.length) (offset : ℕ) :
    ∃ r, npdFindNextBit addr size offset = some r ∧
      IsNext (fun k => bitOf addr k = true) offset size r := by
  rcases lt_or_ge offset size with hlt | hge
  · obtain ⟨r, hr, hn⟩ := findNextBit_words hsz hlt
    refine ⟨_, hr, ?_⟩
    have hsh : IsNext (fun k => bitOf addr k = true) (offset / 32 * 32 + offset % 32)
        (offset / 32 * 32 + (size - offset / 32 * 32)) (offset / 32 * 32 + r) := by
      refine IsNext.shift ?_
      simp only [bitOf_drop (by decide : 0 < 32)] at hn
      simpa only [mul_comm 32] using hn
    rwa [Nat.div_add_mod', Nat.add_sub_cancel' (by omega)] at hsh
  · unfold npdFindNextBit
    exact ⟨size, if_pos hge, isNext_stop fun k hk hks => absurd hk (by omega)⟩

theorem findNextZeroBit_spec (hsz : size ≤ 32 * addr.length) (offset : ℕ) :
    ∃ r, npdFindNextZeroBit addr size offset = some r ∧
      IsNext (fun k => bitOf addr k = false) offset size r := by
  have hlen : size ≤ 32 * (addr.map (~~~·)).length := by rwa [length_map]
  obtain ⟨r, hr, hn⟩ := findNextBit_spec hlen offset
  refine ⟨r, (findNextZeroBit_eq addr size offset).trans hr, hn.congr fun k _ hk => ?_⟩
  rw [bitOf_map_not (hk.trans_le hsz), Bool.not_eq_true']

/-! ## The loop over the set bits -/

def setBits (addr : List Ulong) (size : ℕ) : List ℕ :=
  (List.range size).filter fun k => bitOf addr k

theorem pairwise_setBits (addr : List Ulong) (size : ℕ) : (setBits addr size).Pairwise (· < ·) :=
  pairwise_lt_range.filter _

theorem mem_setBits {size k : ℕ} : k ∈ setBits addr size ↔ k < size ∧ bitOf addr k = true := by
  rw [setBits, mem_filter, mem_range]

def runTurns {σ : Type} (body : ℕ → σ → Turn σ) : List ℕ → σ → σ
  | [], s => s
  | k :: ks, s =>
    match body k s with
    | .stop s => s
    | .next s => runTurns body ks s

section

variable {σ : Type} {addr : List Ulong} {size : ℕ} (body : ℕ → σ → Turn σ)

theorem forEachBitFrom_eq (hsz : size ≤ 32 * addr.length) {fuel start bit : ℕ}
    (hb : IsNext (fun k => bitOf addr k = true) start size bit) (hf : size < fuel + bit) (s : σ) :
    forEachBitFrom addr size body fuel bit s =
      some (runTurns body
        ((range' start (size - start)).filter fun k => bitOf addr k = true) s) := by
  -- By induction on the fuel: a turn moves the variable to the next set bit, which is larger.
  induction fuel generalizing start bit s with
  | zero =>
    have := hb.le
    omega
  | succ fuel ih =>
    rw [filter_range'_of_isNext hb, forEachBitFrom]
    split
    next hlt =>
      obtain ⟨r, hr, hn⟩ := findNextBit_spec hsz (bit + 1)
      have hgt : bit < r := by
        rcases hn.2 with h | h
        · omega
        · exact h.1
      rw [hr, runTurns]
      cases body bit s with
      | stop s => rfl
      | next s => exact ih hn (by omega) s
    next => rfl

theorem forEachBit_eq (hsz : size ≤ 32 * addr.length) (s : σ) :
    npdForEachBit addr size body s = some (runTurns body (setBits addr size) s) := by
  obtain ⟨r, hr, hn⟩ := findNextBit_spec hsz 0
  rw [npdForEachBit, findFirstBit_eq, hr]
  refine (forEachBitFrom_eq body hsz hn (by omega) s).trans ?_
  rw [Nat.sub_zero, ← range_eq_range', setBits]
  simp only [Bool.decide_eq_true]

end

/-- The searches and the loop are exact: for an array of at least `nbits` bits, with anything in
the bits from `nbits` on, the searches return the first position from the start on with the wanted
value, or `nbits`, and the loop makes one turn for each set bit, in the order of their positions,
and ends. -/
theorem bitIteration_exact {addr : List Ulong} {nbits : ℕ} (hlen : nbits ≤ 32 * addr.length) :
    (∀ start, ∃ r, npdFindNextBit addr nbits start = some r ∧
      IsNext (fun k => bitOf addr k = true) start nbits r) ∧
    (∀ start, ∃ r, npdFindNextZeroBit addr nbits start = some r ∧
      IsNext (fun k => bitOf addr k = false) start nbits r) ∧
    (∃ r, npdFindFirstBit addr nbits = some r ∧
      IsNext (fun k => bitOf addr k = true) 0 nbits r) ∧
    (∃ r, npdFindFirstZeroBit addr nbits = some r ∧
      IsNext (fun k => bitOf addr k = false) 0 nbits r) ∧
    ∃ visited : List ℕ, visited.Pairwise (· < ·) ∧
      (∀ k, k ∈ visited ↔ k < nbits ∧ bitOf addr k = true) ∧
      ∀ (σ : Type) (body : ℕ → σ → Turn σ) (s : σ),
        npdForEachBit addr nbits body s = some (runTurns body visited s) := by
  refine ⟨findNextBit_spec hlen, findNextZeroBit_spec hlen, ?_, ?_, setBits addr nbits,
    pairwise_setBits addr nbits, fun _ => mem_setBits, fun _ body s => forEachBit_eq body hlen s⟩
  · rw [findFirstBit_eq]
    exact findNextBit_spec hlen 0
  · rw [findFirstZeroBit_eq, ← findNextZeroBit_eq]
    exact findNextZeroBit_spec hlen 0

/-- An array of five bits in one word with garbage above them: the loop visits the bits 1 and 3. -/
theorem bitIteration_five :
    5 ≤ 32 * [(0xFFFFFFEA : Ulong)].length ∧
      ∃ visited : List ℕ, visited.Pairwise (· < ·) ∧
        (∀ k, k ∈ visited ↔ k < 5 ∧ bitOf [(0xFFFFFFEA : Ulong)] k = true) ∧
        ∀ (σ : Type) (body : ℕ → σ → Turn σ) (s : σ),
          npdForEachBit [(0xFFFFFFEA : Ulong)] 5 body s = some (runTurns body visited s) :=
  have hlen : 5 ≤ 32 * [(0xFFFFFFEA : Ulong)].length := by decide
  ⟨hlen, (bitIteration_exact hlen).2.2.2.2⟩

end Chanos.Bitmap

import Chanos.Bitmap.FindBit
import Chanos.Lib.Runs
import Chanos.Vlan.List

/-!
# Sets of VLANs as text

A set of VLANs is kept as a bitmap of 4096 bits. `vbmp_2_vlanlist_str` prints it as a list of its
maximal ranges. `vlanlist_str_2_vbmp` reads such a list back, but into its own copy of the bitmap
(`survives_iff`).
-/

namespace Chanos.Vlan

open Lib Bitmap List Visit
variable {bmp : Vbmp} {string : List UInt8}

def vbmpVlanMax : ℕ := 4096

structure Vbmp where
  nbits : List Ulong
  length_nbits : nbits.length = 128

open Vbmp

def Vbmp.vlans (bmp : Vbmp) : List ℕ := setBits bmp.nbits vbmpVlanMax

theorem length_replicate_zero : (replicate 128 (0#32)).length = 128 := length_replicate

def Vbmp.clear : Vbmp := ⟨List.replicate 128 0#32, length_replicate_zero⟩

def npdBitarraySetBit (addr : List Ulong) (nr : ℕ) : List Ulong :=
  addr.modify (nr / 32) fun a => a ||| 1#32 <<< (nr % 32)

theorem length_bitarraySetBit {addr : List Ulong} {n : ℕ} (h : addr.length = n) (nr : ℕ) :
    (npdBitarraySetBit addr nr).length = n := by
  rw [npdBitarraySetBit, length_modify, h]

def Vbmp.add (bmp : Vbmp) (vlan : ℕ) : Vbmp :=
  ⟨npdBitarraySetBit bmp.nbits vlan, length_bitarraySetBit bmp.length_nbits vlan⟩

variable (r : ℕ × ℕ)

def rangeText : List UInt8 :=
  if r.1 = r.2 then decimal r.1 else decimal r.1 ++ dash :: decimal r.2

structure PrintState where
  string : List UInt8
  start_vlan : ℕ
  end_vlan : ℕ

def printVlan (vlan : ℕ) (s : PrintState) : Turn PrintState :=
  if s.start_vlan = 0 then .next { s with start_vlan := vlan, end_vlan := vlan }
  else if s.end_vlan + 1 < vlan then
    let vlan_str := rangeText (s.start_vlan, s.end_vlan) ++ [comma]
    if s.string.length + vlan_str.length < 255 then .next ⟨s.string ++ vlan_str, vlan, vlan⟩
    else .stop s
  else .next { s with end_vlan := s.end_vlan + 1 }

def printLast (s : PrintState) : List UInt8 :=
  if s.start_vlan ≠ 0 then
    let vlan_str := rangeText (s.start_vlan, s.end_vlan)
    if s.string.length + vlan_str.length < 255 then s.string ++ vlan_str else s.string
  else s.string

def vbmp2VlanlistStr (bmp : Vbmp) (string : List UInt8) : Option (List UInt8) :=
  (npdForEachBit bmp.nbits vbmpVlanMax printVlan ⟨string, 0, 0⟩).map printLast

/-- The variables that the items change: the number of words that are written to `vlan_list`, and
the copy of the bitmap. -/
structure ReadState where
  iflist_i : ℕ
  bmp : Vbmp

def ReadState.write (s : ReadState) (vid : ℕ) : Except ParseError ReadState :=
  if s.iflist_i < vbmpVlanMax then .ok ⟨s.iflist_i + 1, s.bmp.add vid⟩ else .error .overrun

def addVid (s : ReadState) : Visit → Except ParseError ReadState
  | .single vid => if 0 < vid ∧ vid < 4095 then s.write vid else .error .reject
  | .inRange vid =>
    if 1 < vid ∧ vid < 4096 then do
      let s ← s.write vid
      if vid = 4095 then .error .reject else .ok s
    else .ok s

def vbmpReader : NumberListReader ParseError ReadState := visitReader addVid

/-- What is left after a call of `vlanlist_str_2_vbmp`: the return value, the bitmap of the caller,
and the copy that the function has worked on when it returns zero. -/
structure ReadCall where
  ret : ℤ
  caller : Vbmp
  callee : Option Vbmp

def vlanlistStr2Vbmp (string : List UInt8) (bmp : Vbmp) : Except ParseError ReadCall :=
  match vbmpReader.read ⟨0, bmp⟩ string with
  | .ok s => .ok ⟨0, bmp, some s.bmp⟩
  | .error .reject => .ok ⟨-1, bmp, none⟩
  | .error .overrun => .error .overrun

/-! ## What is printed -/

variable (rs : List (ℕ × ℕ))

def listText : List UInt8 := [comma].intercalate (rs.map rangeText)

def printed (string : List UInt8) : List (ℕ × ℕ) → List UInt8
  | [] => string
  | r :: rs =>
    if rs ≠ [] ∧ string.length + (rangeText r ++ [comma]).length < 255 then
      printed (string ++ (rangeText r ++ [comma])) rs
    else if string.length + (rangeText r).length < 255 then string ++ rangeText r
    else string

theorem printLast_runTurns (l : List ℕ) {s : PrintState} (hst : s.start_vlan ≠ 0)
    (hl : ∀ v ∈ l, v ≠ 0) :
    printLast (runTurns printVlan l s) = printed s.string (runsFrom s.start_vlan s.end_vlan l) := by
  have hla : ∀ t : PrintState, t.start_vlan ≠ 0 → printLast t =
      if t.string.length + (rangeText (t.start_vlan, t.end_vlan)).length < 255 then
        t.string ++ rangeText (t.start_vlan, t.end_vlan)
      else t.string := fun t ht => if_pos ht
  induction l generalizing s with
  | nil =>
    rw [runTurns, hla s hst, runsFrom, printed]
    exact (if_neg fun h => h.1 rfl).symm
  | cons v l ih =>
    have hr : ∀ u ∈ l, u ≠ 0 := fun u hu => hl u (mem_cons_of_mem v hu)
    by_cases hg : s.end_vlan + 1 < v
    · have htu : printVlan v s =
          if s.string.length + (rangeText (s.start_vlan, s.end_vlan) ++ [comma]).length < 255 then
            .next ⟨s.string ++ (rangeText (s.start_vlan, s.end_vlan) ++ [comma]), v, v⟩
          else .stop s := by
        rw [printVlan, if_neg hst, if_pos hg]
      have hne : runsFrom v v l ≠ [] := runsFrom_ne_nil v v l
      rw [runTurns, htu, runsFrom, if_pos hg, printed]
      by_cases hrm : s.string.length +
          (rangeText (s.start_vlan, s.end_vlan) ++ [comma]).length < 255
      · rw [if_pos hrm, if_pos (And.intro hne hrm)]
        exact ih (hl v mem_cons_self) hr
      · rw [if_neg hrm, if_neg fun h : _ ∧ _ => hrm h.2]
        exact hla s hst
    · have htu : printVlan v s = .next { s with end_vlan := s.end_vlan + 1 } := by
        rw [printVlan, if_neg hst, if_neg hg]
      rw [runTurns, htu, runsFrom, if_neg hg]
      exact ih hst hr

theorem vbmp2VlanlistStr_eq (h : ∀ v ∈ bmp.vlans, 1 ≤ v ∧ v ≤ 4094) :
    vbmp2VlanlistStr bmp [] = some (printed [] (runs bmp.vlans)) := by
  have hsz : vbmpVlanMax ≤ 32 * bmp.nbits.length := by
    rw [bmp.length_nbits]
    decide
  rw [vbmp2VlanlistStr, forEachBit_eq printVlan hsz, Option.map_some, ← vlans]
  refine congrArg some ?_
  have hne : ∀ v ∈ bmp.vlans, v ≠ 0 := fun v hv => Nat.ne_of_gt (h v hv).1
  generalize bmp.vlans = l at hne
  cases l with
  | nil => rfl
  | cons v l =>
    -- the first bit begins the first range
    have hf : printVlan v ⟨[], 0, 0⟩ = .next ⟨[], v, v⟩ := if_pos rfl
    rw [runTurns, hf, runs]
    exact printLast_runTurns l (hne v mem_cons_self) fun u hu => hne u (mem_cons_of_mem v hu)

theorem listText_cons_cons (r q : ℕ × ℕ) (rs : List (ℕ × ℕ)) :
    listText (r :: q :: rs) = rangeText r ++ [comma] ++ listText (q :: rs) :=
  intercalate_cons_cons

theorem listText_singleton : listText [r] = rangeText r :=
  intercalate_singleton

theorem printed_of_lt {rs : List (ℕ × ℕ)} (h : string.length + (listText rs).length < 255) :
    printed string rs = string ++ listText rs := by
  induction rs generalizing string with
  | nil => exact (append_nil string).symm
  | cons r rs ih =>
    cases rs with
    | nil =>
      rw [listText_singleton] at h ⊢
      rw [printed, if_neg fun hb => hb.1 rfl, if_pos h]
    | cons q rs =>
      rw [listText_cons_cons, length_append] at h
      rw [listText_cons_cons, printed, if_pos ⟨cons_ne_nil q rs, by omega⟩, ih]
      · simp only [append_assoc]
      · rw [length_append]
        omega

theorem length_printed_lt (h : string.length < 255) : (printed string rs).length < 255 := by
  induction rs generalizing string with
  | nil => exact h
  | cons r rs ih =>
    unfold printed
    split_ifs with hn hla
    · refine ih ?_
      rw [length_append]
      exact hn.2
    · rw [length_append]
      exact hla
    · exact h

theorem isNumeral_decimal (n : ℕ) : IsNumeral (decimal n) :=
  ⟨decimal_ne_nil n, fun _ hc => isDigit_of_mem_decimal hc⟩

theorem comma_notMem_rangeText : comma ∉ rangeText r := by
  unfold rangeText
  split_ifs
  · exact (isNumeral_decimal r.1).comma_notMem
  intro hme
  rcases mem_append.mp hme with hme | hme
  · exact (isNumeral_decimal r.1).comma_notMem hme
  · rcases mem_cons.mp hme with heq | hme
    · cases heq
    · exact (isNumeral_decimal r.2).comma_notMem hme

theorem splitOn_listText {rs : List (ℕ × ℕ)} (hne : rs ≠ []) :
    (listText rs).splitOn comma = rs.map rangeText := by
  refine splitOn_intercalate comma (fun w hw => ?_) fun hn => ?_
  · obtain ⟨r, -, rfl⟩ := mem_map.mp hw
    exact comma_notMem_rangeText r
  · exact hne (map_eq_nil_iff.mp hn)

theorem rangeText_ne_nil : rangeText r ≠ [] := by
  unfold rangeText
  split_ifs
  · exact decimal_ne_nil r.1
  · exact append_ne_nil_of_left_ne_nil (decimal_ne_nil r.1) _

theorem getLast?_listText_ne : (listText rs).getLast? ≠ some comma := by
  intro hla
  -- a text that ends with a comma has an empty piece
  obtain ⟨text, ht⟩ := getLast?_eq_some_iff.mp hla
  have hne : rs ≠ [] := by
    rintro rfl
    cases hla
  have hme : [] ∈ (listText rs).splitOn comma := by
    rw [ht, splitOn_append_cons_self]
    exact mem_append_right _ mem_cons_self
  rw [splitOn_listText hne] at hme
  obtain ⟨r, -, hr⟩ := mem_map.mp hme
  exact rangeText_ne_nil r hr

def PrintsRanges (bmp : Vbmp) : Prop :=
  ∃ string, vbmp2VlanlistStr bmp [] = some string ∧ string.getLast? ≠ some comma ∧
    ∃ rs, MaximalRanges (· ∈ bmp.vlans) rs ∧ string = listText rs

def Fits (bmp : Vbmp) : Prop := (listText (runs bmp.vlans)).length < 255

theorem Vbmp.maximalRanges (bmp : Vbmp) : MaximalRanges (· ∈ bmp.vlans) (runs bmp.vlans) :=
  maximalRanges_runs (pairwise_setBits bmp.nbits vbmpVlanMax)

theorem printed_of_fits (h : Fits bmp) :
    printed [] (runs bmp.vlans) = listText (runs bmp.vlans) := by
  have hlt : ([] : List UInt8).length + (listText (runs bmp.vlans)).length < 255 := by
    rw [length_nil, Nat.zero_add]
    exact h
  rw [printed_of_lt hlt, nil_append]

theorem printsRanges_iff (h : ∀ v ∈ bmp.vlans, 1 ≤ v ∧ v ≤ 4094) : PrintsRanges bmp ↔ Fits bmp := by
  constructor
  · rintro ⟨string, hp, -, rs, hrs, rfl⟩
    have ht : printed [] (runs bmp.vlans) = listText rs :=
      Option.some.inj ((vbmp2VlanlistStr_eq h).symm.trans hp)
    have hlt : (printed [] (runs bmp.vlans)).length < 255 := length_printed_lt _ (by decide)
    rw [Fits, ← hrs.unique bmp.maximalRanges, ← ht]
    exact hlt
  · intro hf
    refine ⟨_, vbmp2VlanlistStr_eq h, ?_, runs bmp.vlans, bmp.maximalRanges, printed_of_fits hf⟩
    rw [printed_of_fits hf]
    exact getLast?_listText_ne _

/-! ## What is read back -/

theorem bitOf_bitarraySetBit {addr : List Ulong} {nr : ℕ} (h : nr < 32 * addr.length) (i : ℕ) :
    bitOf (npdBitarraySetBit addr nr) i = (bitOf addr i || decide (i = nr)) := by
  have hi : nr / 32 < addr.length := Nat.div_lt_of_lt_mul h
  unfold bitOf npdBitarraySetBit
  rw [getD_eq_getElem?_getD, getD_eq_getElem?_getD, getElem?_modify]
  by_cases hwd : nr / 32 = i / 32
  · rw [← hwd, getElem?_eq_getElem hi]
    have hb : (1#32 <<< (nr % 32)).getLsbD (i % 32) = decide (i = nr) := by
      have hlt : i % 32 < 32 := Nat.mod_lt i (by decide)
      rw [BitVec.getLsbD_shiftLeft, BitVec.getLsbD_one]
      by_cases heq : i = nr
      · subst heq
        simp [hlt]
      have hne : i % 32 ≠ nr % 32 := by omega
      simp only [heq, decide_false, hlt, decide_true, Bool.true_and]
      by_cases hle : i % 32 < nr % 32
      · simp [hle]
      · have hp : ¬i % 32 - nr % 32 = 0 := by omega
        simp [hle, hp]
    simp only [if_true, Option.getD_some]
    change (addr[nr / 32] ||| 1#32 <<< (nr % 32)).getLsbD (i % 32) = _
    rw [BitVec.getLsbD_or, hb]
  · have hne : i ≠ nr := by
      rintro rfl
      exact hwd rfl
    simp [hwd, hne]

theorem mem_vlans_add {u v : ℕ} (hu : u < vbmpVlanMax) :
    v ∈ (bmp.add u).vlans ↔ v = u ∨ v ∈ bmp.vlans := by
  have hlt : u < 32 * bmp.nbits.length := by
    rw [bmp.length_nbits]
    exact hu
  rw [vlans, vlans, mem_setBits, mem_setBits, add, bitOf_bitarraySetBit hlt,
    Bool.or_eq_true, decide_eq_true_eq]
  constructor
  · rintro ⟨hv, hb | rfl⟩
    · exact Or.inr ⟨hv, hb⟩
    · exact Or.inl rfl
  · rintro (rfl | ⟨hv, hb⟩)
    · exact ⟨hu, Or.inr rfl⟩
    · exact ⟨hv, Or.inl hb⟩

theorem notMem_vlans_clear (v : ℕ) : v ∉ clear.vlans := by
  rw [vlans, mem_setBits]
  rintro ⟨-, hb⟩
  have hz : (replicate 128 (0#32)).getD (v / 32) 0#32 = 0#32 := by
    rw [getD_eq_getElem?_getD, getElem?_replicate]
    split_ifs <;> rfl
  rw [bitOf, clear, hz, BitVec.getLsbD_zero] at hb
  exact Bool.false_ne_true hb

theorem mem_vlans_foldl_add {vs : List ℕ} (hv : ∀ u ∈ vs, u < vbmpVlanMax) {v : ℕ} :
    v ∈ (vs.foldl add bmp).vlans ↔ v ∈ vs ∨ v ∈ bmp.vlans := by
  induction vs generalizing bmp with
  | nil => exact (or_iff_right not_mem_nil).symm
  | cons u vs ih =>
    rw [foldl_cons, ih fun w hw => hv w (mem_cons_of_mem u hw),
      mem_vlans_add (hv u mem_cons_self), mem_cons, or_left_comm, or_assoc]

def ReadState.after (s : ReadState) (vs : List ℕ) : ReadState :=
  ⟨s.iflist_i + vs.length, vs.foldl add s.bmp⟩

theorem ReadState.after_append (s : ReadState) (vs vs' : List ℕ) :
    (s.after vs).after vs' = s.after (vs ++ vs') := by
  simp [after, Nat.add_assoc]

theorem addVid_of_passes {v : Visit} (hv : Passes v) {s : ReadState}
    (hrm : s.iflist_i + (stored v).toList.length ≤ vbmpVlanMax) :
    addVid s v = .ok (s.after (stored v).toList) := by
  cases v with
  | single u => exact (if_pos hv).trans (if_pos hrm)
  | inRange u =>
    by_cases hb : 1 < u ∧ u < 4096
    · rw [stored, if_pos hb] at hrm ⊢
      have hw : s.write u = .ok (s.after [u]) := if_pos hrm
      rw [addVid, if_pos hb, hw]
      exact if_neg hv
    · rw [stored, if_neg hb]
      exact if_neg hb

theorem foldlM_addVid {vs : List Visit} (hv : ∀ v ∈ vs, Passes v) {s : ReadState}
    (hrm : s.iflist_i + (vs.filterMap stored).length ≤ vbmpVlanMax) :
    vs.foldlM addVid s = .ok (s.after (vs.filterMap stored)) := by
  induction vs generalizing s with
  | nil => rfl
  | cons v vs ih =>
    obtain ⟨hp, hr⟩ := forall_mem_cons.mp hv
    have hap : (v :: vs).filterMap stored = (stored v).toList ++ vs.filterMap stored := by
      cases hso : stored v <;> simp [hso]
    rw [hap, length_append] at hrm
    rw [foldlM_cons, addVid_of_passes hp (by omega), ok_bind, hap, ← ReadState.after_append]
    refine ih hr ?_
    change s.iflist_i + (stored v).toList.length + _ ≤ _
    omega

theorem vlanlistStr2Vbmp_of_read {vs : List ℕ}
    (h : vbmpReader.read ⟨0, bmp⟩ string = .ok ((⟨0, bmp⟩ : ReadState).after vs)) :
    vlanlistStr2Vbmp string bmp = .ok ⟨0, bmp, some (vs.foldl add bmp)⟩ := by
  rw [vlanlistStr2Vbmp, h]
  rfl

def itemOf : NumberItem :=
  if r.1 = r.2 then .single (decimal r.1) else .range (decimal r.1) (decimal r.2)

theorem lexItem_rangeText : lexItem (rangeText r) = some (itemOf r) := by
  unfold rangeText itemOf
  split_ifs
  · exact lexItem_single (isNumeral_decimal r.1)
  · exact lexItem_range (isNumeral_decimal r.1) (isNumeral_decimal r.2)

theorem lexList_listText {rs : List (ℕ × ℕ)} (hne : rs ≠ []) :
    lexList (listText rs) = some (rs.map itemOf) := by
  rw [lexList, splitOn_listText hne]
  clear hne
  induction rs with
  | nil => rfl
  | cons r rs ih =>
    rw [map_cons, mapM_cons, lexItem_rangeText, ih]
    rfl

section

variable {bmp : Vbmp} (h : ∀ v ∈ bmp.vlans, 1 ≤ v ∧ v ≤ 4094)
include h

theorem bounds_of_mem_runs {r : ℕ × ℕ} (hr : r ∈ runs bmp.vlans) :
    1 ≤ r.1 ∧ r.1 ≤ r.2 ∧ r.2 ≤ 4094 := by
  have hle : r.1 ≤ r.2 := bmp.maximalRanges.ordered r hr
  have hst := h r.1 (bmp.maximalRanges.mem_start hr)
  have hsp := h r.2 ((bmp.maximalRanges.covers r.2).mpr ⟨r, hr, hle, Nat.le_refl _⟩)
  omega

theorem namesVlans_itemOf {it : NumberItem} (hit : it ∈ (runs bmp.vlans).map itemOf) :
    NamesVlans it ∧ Short it := by
  obtain ⟨r, hr, rfl⟩ := mem_map.mp hit
  obtain ⟨hlo, hle, hh⟩ := bounds_of_mem_runs h hr
  have hsh : ∀ n ≤ 4094, (decimal n).length < 5 := fun n hn =>
    Nat.lt_succ_of_le (length_decimal_le (j := 4) (by decide) (by omega))
  unfold itemOf
  split_ifs with heq
  · refine ⟨?_, hsh r.1 (by omega)⟩
    change 1 ≤ decimalValue (decimal r.1) ∧ decimalValue (decimal r.1) ≤ 4094
    rw [decimalValue_decimal]
    omega
  · refine ⟨?_, hsh r.1 (by omega), hsh r.2 hh⟩
    change 1 ≤ decimalValue (decimal r.1) ∧ decimalValue (decimal r.1) ≤ decimalValue (decimal r.2) ∧
      decimalValue (decimal r.2) ≤ 4094
    rw [decimalValue_decimal, decimalValue_decimal]
    exact ⟨hlo, hle, hh⟩

omit h in
theorem named_itemOf : named ((runs bmp.vlans).map itemOf) = bmp.vlans := by
  have hi : ∀ r : ℕ × ℕ, (visits (itemOf r)).map vid = range' r.1 (r.2 + 1 - r.1) := by
    intro r
    unfold itemOf
    split_ifs with heq
    · rw [visits, decimalValue_decimal, ← heq, Nat.add_sub_cancel_left]
      rfl
    · rw [visits, decimalValue_decimal, decimalValue_decimal, map_map]
      exact map_id _
  calc named ((runs bmp.vlans).map itemOf)
      = (runs bmp.vlans).flatMap fun r => (visits (itemOf r)).map vid := by
        rw [named, map_flatMap, flatMap_map]
    _ = (runs bmp.vlans).flatMap fun r => range' r.1 (r.2 + 1 - r.1) := by
        simp only [hi]
    _ = bmp.vlans := flatMap_runs (pairwise_setBits bmp.nbits vbmpVlanMax)

theorem single_one_mem_visits : single 1 ∈ ((runs bmp.vlans).map itemOf).flatMap visits ↔
    1 ∈ bmp.vlans ∧ 2 ∉ bmp.vlans := by
  have hz : 0 ∉ bmp.vlans := fun hme => absurd (h 0 hme).1 (by decide)
  have hsi : (0 + 1, 0 + 1) ∈ runs bmp.vlans ↔ _ := bmp.maximalRanges.mem_single_iff
  rw [and_iff_right hz] at hsi
  rw [← hsi, mem_flatMap]
  constructor
  · rintro ⟨it, hit, hme⟩
    obtain ⟨r, hr, rfl⟩ := mem_map.mp hit
    unfold itemOf at hme
    split_ifs at hme with heq
    · rw [visits, decimalValue_decimal, mem_singleton] at hme
      have ho : r.1 = 1 := (single.inj hme).symm
      have hp : r = (0 + 1, 0 + 1) := Prod.ext ho (heq ▸ ho)
      exact hp ▸ hr
    · obtain ⟨u, -, hu⟩ := mem_map.mp hme
      exact absurd hu Visit.noConfusion
  · intro hme
    exact ⟨_, mem_map_of_mem hme, by decide⟩

theorem mem_readBack (hne : bmp.vlans ≠ []) :
    ∃ copy, vlanlistStr2Vbmp (listText (runs bmp.vlans)) clear =
        .ok ⟨0, clear, some copy⟩ ∧
      ∀ v, v ∈ copy.vlans ↔ v ∈ bmp.vlans ∧ (v = 1 → 2 ∉ bmp.vlans) := by
  have hr : runs bmp.vlans ≠ [] := by
    intro hni
    rw [bmp.maximalRanges.eq_nil_iff] at hni
    exact hne (eq_nil_iff_forall_not_mem.mpr hni)
  have hlx := lexList_listText hr
  have hn : ∀ it ∈ (runs bmp.vlans).map itemOf, NamesVlans it := fun it hit =>
    (namesVlans_itemOf h hit).1
  have hme : ∀ v, v ∈ storedVids ((runs bmp.vlans).map itemOf) ↔
      v ∈ bmp.vlans ∧ (v = 1 → 2 ∉ bmp.vlans) := by
    intro v
    rw [mem_storedVids hn, named_itemOf, single_one_mem_visits h]
    refine and_congr_right fun hv => ?_
    constructor
    · intro ho heq
      exact (ho heq).2
    · intro ht heq
      exact ⟨heq ▸ hv, ht heq⟩
  have hb : ∀ u ∈ storedVids ((runs bmp.vlans).map itemOf), u < vbmpVlanMax := fun u hu =>
    (mem_setBits.mp ((hme u).mp hu).1).1
  -- there are at most as many ids as there are VLANs, so `vlan_list` has room for them
  have hc : (storedVids ((runs bmp.vlans).map itemOf)).length ≤ vbmpVlanMax := by
    calc (storedVids ((runs bmp.vlans).map itemOf)).length
        ≤ (((runs bmp.vlans).map itemOf).flatMap visits).length := length_filterMap_le _ _
      _ = bmp.vlans.length := by
          rw [← congrArg length named_itemOf, named, length_map]
      _ ≤ (range vbmpVlanMax).length := length_filter_le _ _
      _ = vbmpVlanMax := length_range
  have hrd : vbmpReader.read ⟨0, clear⟩ (listText (runs bmp.vlans)) =
      .ok ((⟨0, clear⟩ : ReadState).after (storedVids ((runs bmp.vlans).map itemOf))) := by
    rw [NumberListReader.read_lexed hlx]
    refine (foldlM_visitReader (numerals_of_lexList hlx)).mpr ⟨fun it hit => ?_, ?_⟩
    · exact (namesVlans_itemOf h hit).2
    · refine foldlM_addVid (fun v hv => passes_of_namesVlans hn hv) ?_
      rw [Nat.zero_add]
      exact hc
  refine ⟨(storedVids ((runs bmp.vlans).map itemOf)).foldl add clear, ?_, fun v => ?_⟩
  · exact vlanlistStr2Vbmp_of_read hrd
  · rw [mem_vlans_foldl_add hb, hme, or_iff_left (notMem_vlans_clear v)]

end

theorem caller_unchanged {call : ReadCall}
    (h : vlanlistStr2Vbmp string bmp = .ok call) : call.caller = bmp := by
  unfold vlanlistStr2Vbmp at h
  split at h
  · exact (Except.ok.inj h) ▸ rfl
  · exact (Except.ok.inj h) ▸ rfl
  · cases h

/-- A set survives being printed and read back: it is printed as it should be, and when the text is
read with an empty bitmap, the caller finds the VLANs of the set in it. -/
structure Survives (bmp : Vbmp) : Prop where
  prints : PrintsRanges bmp
  reads : ∀ string, vbmp2VlanlistStr bmp [] = some string →
    ∃ call, vlanlistStr2Vbmp string clear = .ok call ∧
      ∀ v, v ∈ call.caller.vlans ↔ v ∈ bmp.vlans

theorem Survives.vlans_eq_nil (h : Survives bmp) : bmp.vlans = [] := by
  obtain ⟨string, hp, -⟩ := h.prints
  obtain ⟨call, hca, hme⟩ := h.reads string hp
  rw [caller_unchanged hca] at hme
  exact eq_nil_iff_forall_not_mem.mpr fun v hv => notMem_vlans_clear v ((hme v).mpr hv)

/-- **When a set of VLANs survives being printed and read back**, when it is printed as the list of
its maximal ranges, and what the function that reads it back has in its own copy. -/
theorem survives_iff {bmp : Vbmp} (h : ∀ v ∈ bmp.vlans, 1 ≤ v ∧ v ≤ 4094) :
    (Survives bmp ↔ bmp.vlans = []) ∧ (PrintsRanges bmp ↔ Fits bmp) ∧
      (Fits bmp → bmp.vlans ≠ [] → ∃ string copy, vbmp2VlanlistStr bmp [] = some string ∧
        vlanlistStr2Vbmp string clear = .ok ⟨0, clear, some copy⟩ ∧
        ∀ v, v ∈ copy.vlans ↔ v ∈ bmp.vlans ∧ (v = 1 → 2 ∉ bmp.vlans)) := by
  refine ⟨⟨Survives.vlans_eq_nil, fun hnil => ?_⟩, printsRanges_iff h, fun hfits hne => ?_⟩
  · have hfits : Fits bmp := by
      rw [Fits, hnil]
      decide
    refine ⟨(printsRanges_iff h).mpr hfits, fun string hprint => ?_⟩
    -- the text is empty, and the list in it is refused
    have hstring : string = [] := by
      have htext := Option.some.inj (hprint.symm.trans (vbmp2VlanlistStr_eq h))
      rw [hnil] at htext
      exact htext
    subst hstring
    refine ⟨⟨-1, clear, none⟩, rfl, fun v => ?_⟩
    rw [hnil]
    exact iff_of_false (notMem_vlans_clear v) not_mem_nil
  · obtain ⟨copy, hread, hmem⟩ := mem_readBack h hne
    have hprint : vbmp2VlanlistStr bmp [] = some (listText (runs bmp.vlans)) :=
      (vbmp2VlanlistStr_eq h).trans (congrArg some (printed_of_fits hfits))
    exact ⟨_, copy, hprint, hread, hmem⟩

def vlanFive : Vbmp := clear.add 5

theorem mem_vlanFive {v : ℕ} : v ∈ vlanFive.vlans ↔ v = 5 :=
  (mem_vlans_add (by decide)).trans (or_iff_left (notMem_vlans_clear v))

/-- The theorem about the set of the VLAN 5 only. -/
theorem survives_vlanFive :
    (∀ v ∈ vlanFive.vlans, 1 ≤ v ∧ v ≤ 4094) ∧ (Survives vlanFive ↔ vlanFive.vlans = []) := by
  have hvlans : ∀ v ∈ vlanFive.vlans, 1 ≤ v ∧ v ≤ 4094 := by
    intro v hv
    rw [mem_vlanFive.mp hv]
    decide
  exact ⟨hvlans, (survives_iff hvlans).1⟩

/-- The set of the VLAN 5 only does not survive: the caller finds no VLAN in the bitmap. -/
theorem vlanFive_lost : 5 ∈ vlanFive.vlans ∧
    (∀ call, vlanlistStr2Vbmp [53] clear = .ok call → 5 ∉ call.caller.vlans) ∧
    ¬Survives vlanFive := by
  have hmem : 5 ∈ vlanFive.vlans := mem_vlanFive.mpr rfl
  refine ⟨hmem, fun call hcall => ?_, fun hsurvives => ?_⟩
  · rw [caller_unchanged hcall]
    exact notMem_vlans_clear 5
  · rw [hsurvives.vlans_eq_nil] at hmem
    exact not_mem_nil hmem

end Chanos.Vlan

import Chanos.Lib.CString
import Chanos.Lib.Except
import Chanos.Lib.NumberList
import Chanos.Lib.SortDistinct

/-!
# Lists of VLANs

A list of VLANs is written as `1,2-6,10`. `parse_vlanlist` makes of it the ids in increasing order
with a zero behind them, and `parse_vlanlist_range` the ranges with an empty range behind them.
`vlanlist_means_iff` says exactly when a list means what is written in it.
-/

namespace Chanos.Vlan

open Lib List Option Nat
variable {items : List NumberItem} {vlanlist : CString}

def maxVlanInList : ℕ := 200

inductive ParseError
  | reject
  | overrun
  deriving DecidableEq, Repr

inductive Visit
  | single (vid : ℕ)
  | inRange (vid : ℕ)
  deriving DecidableEq, Repr

def Visit.vid : Visit → ℕ
  | .single vid => vid
  | .inRange vid => vid

def storeVid (vlan_list : List ℕ) : Visit → Except ParseError (List ℕ)
  | .single vid =>
    if maxVlanInList ≤ vlan_list.length then .error .reject
    else if 0 < vid ∧ vid < 4095 then .ok (vlan_list ++ [vid])
    else .error .reject
  | .inRange vid =>
    if maxVlanInList ≤ vlan_list.length then .error .reject
    else if 1 < vid ∧ vid < 4096 then
      if vid = 4095 then .error .reject else .ok (vlan_list ++ [vid])
    else .ok vlan_list

def visitReader {α : Type} (act : α → Visit → Except ParseError α) :
    NumberListReader ParseError α where
  limit := 5
  skipsSpace := false
  malformed := .reject
  single a vlan_s := act a (.single vlan_s)
  range a i_s i_e := (range' i_s (i_e + 1 - i_s)).foldlM (fun a i => act a (.inRange i)) a

def vlanlistReader : NumberListReader ParseError (List ℕ) := visitReader storeVid

def parseVlanlist (vlanlist : CString) : Option (List ℕ) :=
  match vlanlistReader.read [] vlanlist.1 with
  | .error _ => none
  | .ok vlan_list =>
    if vlan_list.length = 0 then none
    else
      -- the words behind the ids were set to zero before
      some (sortDistinct vlan_list ++
        replicate (vlan_list.length + 1 - (sortDistinct vlan_list).length) 0)

def storeRange (range : List (ℕ × ℕ)) (r : ℕ × ℕ) : Except ParseError (List (ℕ × ℕ)) :=
  if maxVlanInList - 1 ≤ range.length + 1 then .error .reject else .ok (range ++ [r])

def vlanRangeReader : NumberListReader ParseError (List (ℕ × ℕ)) where
  limit := 11
  skipsSpace := true
  malformed := .reject
  single range vlan_s :=
    if 0 < vlan_s ∧ vlan_s < 4095 then storeRange range (vlan_s, vlan_s) else .error .reject
  range range i_s i_e := storeRange range (i_s, i_e)

def parseVlanlistRange (vlanlist : CString) : Option (List (ℕ × ℕ)) :=
  match vlanRangeReader.read [] vlanlist.1 with
  | .error _ => none
  | .ok range => if range.length = 0 then none else some (range ++ [(0, 0)])

def visits : NumberItem → List Visit
  | .single ds => [.single (decimalValue ds)]
  | .range ds es =>
    (range' (decimalValue ds) (decimalValue es + 1 - decimalValue ds)).map .inRange

def named (items : List NumberItem) : List ℕ := (items.flatMap visits).map Visit.vid

def NamesVlans : NumberItem → Prop
  | .single ds => 1 ≤ decimalValue ds ∧ decimalValue ds ≤ 4094
  | .range ds es => 1 ≤ decimalValue ds ∧ decimalValue ds ≤ decimalValue es ∧ decimalValue es ≤ 4094

instance : DecidablePred NamesVlans
  | .single _ => inferInstanceAs (Decidable (_ ∧ _))
  | .range _ _ => inferInstanceAs (Decidable (_ ∧ _ ∧ _))

def IsVlanList (items : List NumberItem) : Prop :=
  (∀ it ∈ items, NamesVlans it) ∧ (named items).length ≤ maxVlanInList

instance (items : List NumberItem) : Decidable (IsVlanList items) :=
  inferInstanceAs (Decidable (_ ∧ _))

def Short : NumberItem → Prop
  | .single ds => ds.length < 5
  | .range ds es => ds.length < 5 ∧ es.length < 5

def stored : Visit → Option ℕ
  | .single vid => some vid
  | .inRange vid => if 1 < vid ∧ vid < 4096 then some vid else none

def Passes : Visit → Prop
  | .single vid => 0 < vid ∧ vid < 4095
  | .inRange vid => vid ≠ 4095

def zeroTerminated (words : List ℕ) : List ℕ := words.takeWhile (· ≠ 0)

def InRanges (range : List (ℕ × ℕ)) (vid : ℕ) : Prop :=
  ∃ r ∈ range.takeWhile (· ≠ (0, 0)), r.1 ≤ vid ∧ vid ≤ r.2

/-- The two results that a list with these items should have: the ids in strictly increasing order
with a zero behind them, and ranges of the same ids. -/
structure Denotes (vlanlist : CString) (items : List NumberItem) : Prop where
  ids : ∃ words, parseVlanlist vlanlist = some words ∧ 0 ∈ words ∧
    (zeroTerminated words).Pairwise (· < ·) ∧ ∀ vid, vid ∈ zeroTerminated words ↔ vid ∈ named items
  ranges : ∃ range, parseVlanlistRange vlanlist = some range ∧
    ∀ vid, InRanges range vid ↔ vid ∈ named items

/-- A list means what is written: it is accepted exactly when it is a list of VLAN ids, and then
both results are what they should be. -/
structure MeansWhatIsWritten (vlanlist : CString) : Prop where
  accepted : (parseVlanlist vlanlist).isSome ↔
    ∃ items, lexList vlanlist.1 = some items ∧ IsVlanList items
  denotes : ∀ items, lexList vlanlist.1 = some items → IsVlanList items → Denotes vlanlist items

/-! ## The list of ids -/

theorem storeVid_eq_ok {l l' : List ℕ} {v : Visit} :
    storeVid l v = .ok l' ↔ l.length < maxVlanInList ∧ Passes v ∧ l' = l ++ (stored v).toList := by
  cases v with
  | single vid =>
    rw [storeVid, ite_error_eq_ok, ite_eq_ok, not_le, ok_eq_ok]
    rfl
  | inRange vid =>
    rw [storeVid, ite_error_eq_ok, not_le, stored]
    refine and_congr_right fun _ => ?_
    by_cases hv : 1 < vid ∧ vid < 4096
    · rw [if_pos hv, if_pos hv, ite_error_eq_ok, ok_eq_ok]
      rfl
    have hne : vid ≠ 4095 := by
      rintro rfl
      exact hv ⟨by decide, by decide⟩
    rw [if_neg hv, if_neg hv, ok_eq_ok, toList_none, append_nil]
    exact (and_iff_right hne).symm

theorem foldlM_storeVid_eq_ok {vs : List Visit} {l l' : List ℕ} :
    vs.foldlM storeVid l = .ok l' ↔
      (∀ v ∈ vs, Passes v) ∧
        (vs ≠ [] → l.length + (vs.dropLast.filterMap stored).length < maxVlanInList) ∧
        l' = l ++ vs.filterMap stored := by
  induction vs using List.reverseRecOn generalizing l' with
  | nil =>
    rw [foldlM_nil, filterMap_nil, append_nil]
    refine ⟨fun h => ⟨fun v hv => absurd hv not_mem_nil, absurd rfl, ?_⟩, ?_⟩
    · exact (Except.ok.inj h).symm
    · rintro ⟨-, -, rfl⟩
      rfl
  | append_singleton vs v ih =>
    have hap : l ++ (vs ++ [v]).filterMap stored =
        l ++ vs.filterMap stored ++ (stored v).toList := by
      rw [filterMap_append, append_assoc]
      cases hv : stored v <;> simp [hv]
    rw [foldlM_append, bind_eq_ok, dropLast_concat, hap, forall_mem_append, ← length_append]
    simp only [foldlM_cons, foldlM_nil, bind_pure, storeVid_eq_ok, forall_mem_singleton]
    constructor
    · rintro ⟨a, ha, hlen, hv, rfl⟩
      obtain ⟨hp, -, rfl⟩ := ih.mp ha
      exact ⟨⟨hp, hv⟩, fun _ => hlen, rfl⟩
    · rintro ⟨⟨hp, hv⟩, hlen, rfl⟩
      have hlen := hlen (by simp)
      refine ⟨_, ih.mpr ⟨hp, fun _ => ?_, rfl⟩, hlen, hv, rfl⟩
      have hle := ((dropLast_sublist vs).filterMap stored).length_le
      rw [length_append] at hlen
      omega

theorem strtoulDigits_of_short {ds : List UInt8} (hds : IsNumeral ds) (h : ds.length < 5) :
    strtoulDigits ds = decimalValue ds := by
  have hlt : decimalValue ds < 10 ^ ds.length := decimalValue_lt hds.2
  have hp : 10 ^ ds.length ≤ 10 ^ 4 := Nat.pow_le_pow_right (by decide) (by omega)
  exact min_eq_left (by unfold ulongMax; omega)

def Numerals : NumberItem → Prop
  | .single ds => IsNumeral ds
  | .range ds es => IsNumeral ds ∧ IsNumeral es

theorem numerals_of_lexList {s : List UInt8}
    (h : lexList s = some items) : ∀ it ∈ items, Numerals it := by
  unfold lexList at h
  generalize s.splitOn comma = ws at h
  induction ws generalizing items with
  | nil =>
    have hi : items = [] := (some.inj h).symm
    rw [hi]
    exact fun it hit => absurd hit not_mem_nil
  | cons w ws ih =>
    obtain ⟨it, its, hit, his, rfl⟩ := mapM_cons_eq_some.mp h
    intro u hu
    rcases mem_cons.mp hu with rfl | hu
    · rcases lexItem_eq_some hit with ⟨rfl, hw⟩ | ⟨ds, es, rfl, -, hd, he⟩
      · exact hw
      · exact ⟨hd, he⟩
    · exact ih his u hu

section

variable {α : Type} {act : α → Visit → Except ParseError α}

theorem visitReader_item {it : NumberItem} (hn : Numerals it) {a a' : α} :
    (visitReader act).item a it = .ok a' ↔ Short it ∧ (visits it).foldlM act a = .ok a' := by
  cases it with
  | single ds =>
    change (if ds.length < 5 then act a (.single (strtoulDigits ds)) else .error .reject) =
      Except.ok a' ↔ _
    rw [ite_eq_ok]
    refine and_congr_right fun hlen => ?_
    rw [strtoulDigits_of_short hn hlen, visits, foldlM_cons]
    exact Eq.congr_left (bind_pure _).symm
  | range ds es =>
    change (if ds.length < 5 ∧ es.length < 5 then
      (range' (strtoulDigits ds) (strtoulDigits es + 1 - strtoulDigits ds)).foldlM
        (fun a i => act a (.inRange i)) a else .error .reject) = Except.ok a' ↔ _
    rw [ite_eq_ok]
    refine and_congr_right fun hlen => ?_
    rw [visits, foldlM_map, strtoulDigits_of_short hn.1 hlen.1, strtoulDigits_of_short hn.2 hlen.2]

theorem foldlM_visitReader {items : List NumberItem} (hn : ∀ it ∈ items, Numerals it) {a a' : α} :
    items.foldlM (visitReader act).item a = .ok a' ↔
      (∀ it ∈ items, Short it) ∧ (items.flatMap visits).foldlM act a = .ok a' := by
  induction items generalizing a with
  | nil => exact (and_iff_right fun it hit => absurd hit not_mem_nil).symm
  | cons it items ih =>
    have hh : Numerals it := hn it mem_cons_self
    have ht : ∀ it' ∈ items, Numerals it' := fun it' h => hn it' (mem_cons_of_mem it h)
    rw [foldlM_cons, bind_eq_ok, flatMap_cons, foldlM_append, bind_eq_ok, forall_mem_cons]
    constructor
    · rintro ⟨b, hb, h⟩
      obtain ⟨hsh, hb⟩ := (visitReader_item hh).mp hb
      obtain ⟨ha, h⟩ := (ih ht).mp h
      exact ⟨⟨hsh, ha⟩, b, hb, h⟩
    · rintro ⟨⟨hsh, ha⟩, b, hb, h⟩
      exact ⟨b, (visitReader_item hh).mpr ⟨hsh, hb⟩, (ih ht).mpr ⟨ha, h⟩⟩

end

def storedVids (items : List NumberItem) : List ℕ := (items.flatMap visits).filterMap stored

/-- The lists that are accepted: the numbers are short, no id is an error, the array is not full
before the last id is looked at, and some id is stored. -/
structure Accepted (items : List NumberItem) : Prop where
  short : ∀ it ∈ items, Short it
  passes : ∀ v ∈ items.flatMap visits, Passes v
  fits : ((items.flatMap visits).dropLast.filterMap stored).length < maxVlanInList
  some_stored : storedVids items ≠ []

theorem parseVlanlist_of_lexList_none (h : lexList vlanlist.1 = none) :
    parseVlanlist vlanlist = none := by
  obtain ⟨e, he⟩ := NumberListReader.read_unlexed (m := vlanlistReader) rfl h []
  unfold parseVlanlist
  rw [he]

theorem parseVlanlist_eq_some (h : lexList vlanlist.1 = some items) {words : List ℕ} :
    parseVlanlist vlanlist = some words ↔ Accepted items ∧
      words = sortDistinct (storedVids items) ++
        replicate ((storedVids items).length + 1 - (sortDistinct (storedVids items)).length) 0 := by
  have hrd : vlanlistReader.read [] vlanlist.1 = items.foldlM vlanlistReader.item [] :=
    NumberListReader.read_lexed h []
  have hnu := numerals_of_lexList h
  unfold parseVlanlist
  rw [hrd]
  constructor
  · intro hp
    split at hp
    next => exact absurd hp (some_ne_none words).symm
    next l hl =>
      obtain ⟨hsh, hf⟩ := (foldlM_visitReader hnu).mp hl
      obtain ⟨hpa, hft, hli⟩ := foldlM_storeVid_eq_ok.mp hf
      have hso : l = storedVids items := hli
      rw [ite_none_left_eq_some] at hp
      obtain ⟨hlen, hwo⟩ := hp
      have hne : storedVids items ≠ [] := by
        intro hn
        rw [hso, hn] at hlen
        exact hlen rfl
      have hv : items.flatMap visits ≠ [] := by
        intro hn
        refine hne ?_
        rw [storedVids, hn]
        rfl
      refine ⟨⟨hsh, hpa, ?_, hne⟩, ?_⟩
      · simpa using hft hv
      · rw [← hso]
        exact (some.inj hwo).symm
  · rintro ⟨ha, rfl⟩
    have hok : items.foldlM vlanlistReader.item [] = .ok (storedVids items) := by
      refine (foldlM_visitReader hnu).mpr ⟨ha.short, foldlM_storeVid_eq_ok.mpr ?_⟩
      refine ⟨ha.passes, fun _ => ?_, rfl⟩
      simpa using ha.fits
    rw [hok]
    refine if_neg fun hlen => ?_
    exact ha.some_stored (eq_nil_of_length_eq_zero hlen)

theorem zeroTerminated_words {l : List ℕ} (h : 0 ∉ l) (k : ℕ) :
    zeroTerminated (l ++ replicate (k + 1) 0) = l := by
  rw [zeroTerminated, takeWhile_append_of_pos, replicate_succ,
    takeWhile_cons_of_neg (by decide), append_nil]
  intro v hv
  refine decide_eq_true ?_
  rintro rfl
  exact h hv

/-! ## The ranges -/

def rangeOf : NumberItem → ℕ × ℕ
  | .single ds => (decimalValue ds, decimalValue ds)
  | .range ds es => (decimalValue ds, decimalValue es)

theorem vlanRangeReader_item {it : NumberItem} (hn : Numerals it) (hsh : Short it)
    (hvl : NamesVlans it) (range : List (ℕ × ℕ)) :
    vlanRangeReader.item range it = storeRange range (rangeOf it) := by
  cases it with
  | single ds =>
    have hlen : ds.length < 5 := hsh
    have hv : strtoulDigits ds = decimalValue ds := strtoulDigits_of_short hn hsh
    change (if ds.length < 11 then (if 0 < strtoulDigits ds ∧ strtoulDigits ds < 4095 then
      storeRange range (strtoulDigits ds, strtoulDigits ds) else .error .reject)
      else .error .reject) = _
    rw [if_pos (by omega), hv, if_pos]
    · rfl
    · obtain ⟨hlo, hh⟩ := hvl
      omega
  | range ds es =>
    have hlen : ds.length < 5 ∧ es.length < 5 := hsh
    change (if ds.length < 11 ∧ es.length < 11 then
      storeRange range (strtoulDigits ds, strtoulDigits es) else .error .reject) = _
    rw [if_pos (by omega), strtoulDigits_of_short hn.1 hlen.1, strtoulDigits_of_short hn.2 hlen.2]
    rfl

theorem foldlM_storeRange (rs : List (ℕ × ℕ)) :
    rs.foldlM storeRange [] =
      if rs = [] ∨ rs.length < maxVlanInList - 1 then .ok rs else .error .reject := by
  have hrun := foldlM_push (f := storeRange) (k := rs) (l := []) id
    (Nat.zero_le (maxVlanInList - 1)) fun _ _ _ _ => rfl
  rwa [length_nil, Nat.zero_add] at hrun

theorem parseVlanlistRange_eq (h : lexList vlanlist.1 = some items)
    (hsh : ∀ it ∈ items, Short it) (hv : ∀ it ∈ items, NamesVlans it) :
    parseVlanlistRange vlanlist =
      if items ≠ [] ∧ items.length + 1 < maxVlanInList then some (items.map rangeOf ++ [(0, 0)])
      else none := by
  have hnu := numerals_of_lexList h
  have hi : ∀ range, items.foldlM vlanRangeReader.item range =
      (items.map rangeOf).foldlM storeRange range := by
    clear h
    intro range
    induction items generalizing range with
    | nil => rfl
    | cons it items ih =>
      rw [foldlM_cons, map_cons, foldlM_cons,
        vlanRangeReader_item (hnu it mem_cons_self) (hsh it mem_cons_self) (hv it mem_cons_self)]
      refine bind_congr fun a => ?_
      exact ih (fun u hu => hsh u (mem_cons_of_mem it hu))
        (fun u hu => hv u (mem_cons_of_mem it hu))
        (fun u hu => hnu u (mem_cons_of_mem it hu)) a
  have hrd : vlanRangeReader.read [] vlanlist.1 =
      if items = [] ∨ items.length + 1 < maxVlanInList then .ok (items.map rangeOf)
      else .error .reject := by
    rw [NumberListReader.read_lexed h, hi, foldlM_storeRange]
    refine if_congr ?_ rfl rfl
    rw [map_eq_nil_iff, length_map]
    refine or_congr_right ?_
    omega
  unfold parseVlanlistRange
  rw [hrd]
  by_cases hn : items = []
  · subst hn
    rfl
  have hlen : (items.map rangeOf).length ≠ 0 := by
    rw [length_map]
    exact fun hz => hn (eq_nil_of_length_eq_zero hz)
  by_cases hr : items.length + 1 < maxVlanInList
  · rw [if_pos (Or.inr hr), if_pos ⟨hn, hr⟩]
    exact if_neg hlen
  · rw [if_neg fun hor => hr (hor.resolve_left hn), if_neg fun hb => hr hb.2]

theorem mem_visits_iff {it : NumberItem} {vid : ℕ} :
    vid ∈ (visits it).map Visit.vid ↔ (rangeOf it).1 ≤ vid ∧ vid ≤ (rangeOf it).2 := by
  cases it with
  | single ds =>
    rw [visits, map_singleton, mem_singleton]
    change vid = decimalValue ds ↔ decimalValue ds ≤ vid ∧ vid ≤ decimalValue ds
    omega
  | range ds es =>
    have hma : (visits (.range ds es)).map Visit.vid =
        range' (decimalValue ds) (decimalValue es + 1 - decimalValue ds) := by
      rw [visits, List.map_map]
      exact map_id _
    rw [hma, mem_range'_1]
    change _ ↔ decimalValue ds ≤ vid ∧ vid ≤ decimalValue es
    omega

theorem mem_named {vid : ℕ} :
    vid ∈ named items ↔ ∃ it ∈ items, (rangeOf it).1 ≤ vid ∧ vid ≤ (rangeOf it).2 := by
  have hma : named items = items.flatMap fun it => (visits it).map Visit.vid :=
    map_flatMap
  rw [hma, mem_flatMap]
  exact exists_congr fun it => and_congr_right fun _ => mem_visits_iff

theorem inRanges_iff (hvl : ∀ it ∈ items, NamesVlans it) (vid : ℕ) :
    InRanges (items.map rangeOf ++ [(0, 0)]) vid ↔ vid ∈ named items := by
  have hp : ∀ it ∈ items, rangeOf it ≠ (0, 0) := by
    intro it hit heq
    have ho : 1 ≤ (rangeOf it).1 := by
      cases it with
      | single ds | range ds es => exact (hvl _ hit).1
    rw [heq] at ho
    exact not_succ_le_zero 0 ho
  have ht : (items.map rangeOf ++ [(0, 0)]).takeWhile (· ≠ (0, 0)) = items.map rangeOf := by
    rw [takeWhile_append_of_pos, takeWhile_cons_of_neg (by decide), append_nil]
    intro r hr
    obtain ⟨it, hit, rfl⟩ := mem_map.mp hr
    exact decide_eq_true (hp it hit)
  rw [InRanges, ht, mem_named]
  constructor
  · rintro ⟨r, hr, hv⟩
    obtain ⟨it, hit, rfl⟩ := mem_map.mp hr
    exact ⟨it, hit, hv⟩
  · rintro ⟨it, hit, hv⟩
    exact ⟨rangeOf it, mem_map_of_mem hit, hv⟩

/-! ## When a list means what is written -/

/-- What a list must be like for the two functions to do what is written in it. -/
structure Settled (items : List NumberItem) : Prop where
  vlans : IsVlanList items → (∀ it ∈ items, Short it) ∧
    (Visit.inRange 1 ∈ items.flatMap visits → Visit.single 1 ∈ items.flatMap visits) ∧
    items.length + 1 < maxVlanInList
  other : ¬IsVlanList items → ¬Accepted items

theorem vid_of_namesVlans (h : ∀ it ∈ items, NamesVlans it) {v : Visit}
    (hv : v ∈ items.flatMap visits) : 1 ≤ v.vid ∧ v.vid ≤ 4094 := by
  obtain ⟨it, hit, hvi⟩ := mem_named.mp (mem_map_of_mem (f := Visit.vid) hv)
  have hvl : NamesVlans it := h it hit
  cases it with
  | single ds =>
    have hds : 1 ≤ decimalValue ds ∧ decimalValue ds ≤ 4094 := hvl
    change decimalValue ds ≤ _ ∧ _ ≤ decimalValue ds at hvi
    omega
  | range ds es =>
    have hds : 1 ≤ decimalValue ds ∧ decimalValue ds ≤ decimalValue es ∧ decimalValue es ≤ 4094 :=
      hvl
    change decimalValue ds ≤ _ ∧ _ ≤ decimalValue es at hvi
    omega

theorem mem_storedVids (h : ∀ it ∈ items, NamesVlans it) {vid : ℕ} :
    vid ∈ storedVids items ↔
      vid ∈ named items ∧ (vid = 1 → Visit.single 1 ∈ items.flatMap visits) := by
  rw [storedVids, mem_filterMap, named, List.mem_map]
  constructor
  · rintro ⟨v, hv, hso⟩
    cases v with
    | single u =>
      have hu : u = vid := some.inj hso
      exact ⟨⟨_, hv, hu⟩, fun ho => (hu.trans ho) ▸ hv⟩
    | inRange u =>
      obtain ⟨hb, hu⟩ := ite_none_right_eq_some.mp hso
      have hu : u = vid := some.inj hu
      refine ⟨⟨_, hv, hu⟩, fun ho => ?_⟩
      omega
  · rintro ⟨⟨v, hv, hvi⟩, ho⟩
    have hb := vid_of_namesVlans h hv
    by_cases heq : vid = 1
    · exact ⟨_, ho heq, congrArg some heq.symm⟩
    refine ⟨v, hv, ?_⟩
    cases v with
    | single u => exact congrArg some hvi
    | inRange u =>
      have hu : u = vid := hvi
      rw [stored, if_pos (by omega), hu]

theorem lexList_ne_nil {s : List UInt8} (h : lexList s = some items) : items ≠ [] := by
  obtain ⟨w, ws, hws⟩ := exists_cons_of_ne_nil (splitOn_ne_nil comma s)
  rw [lexList, hws] at h
  obtain ⟨it, its, -, -, rfl⟩ := mapM_cons_eq_some.mp h
  exact cons_ne_nil it its

theorem named_ne_nil (hne : items ≠ []) (h : IsVlanList items) : ∃ vid, vid ∈ named items := by
  obtain ⟨it, its, rfl⟩ := exists_cons_of_ne_nil hne
  refine ⟨(rangeOf it).1, mem_named.mpr ⟨it, mem_cons_self, le_refl _, ?_⟩⟩
  have hv : NamesVlans it := h.1 it mem_cons_self
  cases it with
  | single ds => exact le_refl _
  | range ds es => exact hv.2.1

theorem Accepted.zero_notMem (h : Accepted items) : 0 ∉ sortDistinct (storedVids items) := by
  rw [mem_sortDistinct, storedVids, mem_filterMap]
  rintro ⟨v, hv, hso⟩
  have hp : Passes v := h.passes v hv
  cases v with
  | single u =>
    rw [some.inj hso] at hp
    exact lt_irrefl 0 hp.1
  | inRange u =>
    obtain ⟨hb, hu⟩ := ite_none_right_eq_some.mp hso
    rw [some.inj hu] at hb
    omega

theorem passes_of_namesVlans (h : ∀ it ∈ items, NamesVlans it) {v : Visit}
    (hv : v ∈ items.flatMap visits) : Passes v := by
  have hb := vid_of_namesVlans h hv
  cases v with have hu : 1 ≤ u ∧ u ≤ 4094 := hb
  | single u => exact ⟨by omega, by omega⟩
  | inRange u => exact fun heq => by omega

theorem accepted_of_isVlanList (h : IsVlanList items)
    (hsh : ∀ it ∈ items, Short it) (hso : storedVids items ≠ []) : Accepted items where
  short := hsh
  passes := fun v hv => passes_of_namesVlans h.1 hv
  fits := by
    have hlen : (items.flatMap visits).length ≤ maxVlanInList := by
      have hc := h.2
      rwa [named, length_map] at hc
    have hf : ((items.flatMap visits).dropLast.filterMap stored).length ≤
        (items.flatMap visits).length - 1 :=
      (length_filterMap_le _ _).trans (le_of_eq length_dropLast)
    have hr : 0 < maxVlanInList := by decide
    omega
  some_stored := hso

theorem zeroTerminated_parseVlanlist (h : lexList vlanlist.1 = some items) (ha : Accepted items) :
    ∃ words, parseVlanlist vlanlist = some words ∧ 0 ∈ words ∧
      zeroTerminated words = sortDistinct (storedVids items) := by
  have hle : (sortDistinct (storedVids items)).length ≤ (storedVids items).length := by
    have hn : (sortDistinct (storedVids items)).Nodup :=
      (pairwise_sortDistinct (storedVids items)).imp ne_of_lt
    exact (hn.subperm fun v hv => mem_sortDistinct.mp hv).length_le
  obtain ⟨k, hk⟩ : ∃ k, (storedVids items).length + 1 - (sortDistinct (storedVids items)).length =
      k + 1 := ⟨(storedVids items).length - (sortDistinct (storedVids items)).length, by omega⟩
  refine ⟨_, (parseVlanlist_eq_some h).mpr ⟨ha, rfl⟩, ?_, ?_⟩
  · rw [hk, replicate_succ]
    exact mem_append_right _ mem_cons_self
  · rw [hk]
    exact zeroTerminated_words ha.zero_notMem k

/-- **When a list of VLANs means what is written.** -/
theorem vlanlist_means_iff (vlanlist : CString) :
    MeansWhatIsWritten vlanlist ↔
      ∀ items, lexList vlanlist.1 = some items → Settled items := by
  constructor
  · intro hmeans items hlex
    refine ⟨fun hvlans => ?_, fun hvlans hacc => hvlans ?_⟩
    · obtain ⟨⟨words, hwords, -, -, hmem⟩, ⟨range, hrange, -⟩⟩ := hmeans.denotes items hlex hvlans
      have hacc : Accepted items := ((parseVlanlist_eq_some hlex).mp hwords).1
      obtain ⟨words', hwords', -, hids⟩ := zeroTerminated_parseVlanlist hlex hacc
      obtain rfl : words' = words := mem_unique hwords' hwords
      refine ⟨hacc.short, fun hone => ?_, ?_⟩
      · -- the id 1 is named, so it is in the list, and then it was not stored for a range
        have hnamed : 1 ∈ named items := mem_map_of_mem (f := Visit.vid) hone
        have hstored : 1 ∈ storedVids items := by
          rw [← mem_sortDistinct, ← hids]
          exact (hmem 1).mpr hnamed
        exact ((mem_storedVids hvlans.1).mp hstored).2 rfl
      · rw [parseVlanlistRange_eq hlex hacc.short hvlans.1,
          ite_none_right_eq_some] at hrange
        exact hrange.1.2
    · obtain ⟨words, hwords, -⟩ := zeroTerminated_parseVlanlist hlex hacc
      have hsome : (parseVlanlist vlanlist).isSome := by rw [hwords]; rfl
      obtain ⟨items', hlex', hvlans'⟩ := hmeans.accepted.mp hsome
      exact mem_unique hlex hlex' ▸ hvlans'
  · intro hsettled
    have hlist : ∀ items, lexList vlanlist.1 = some items → IsVlanList items →
        Accepted items ∧ ∀ vid, vid ∈ storedVids items ↔ vid ∈ named items := by
      intro items hlex hvlans
      obtain ⟨hshort, hone, -⟩ := (hsettled items hlex).vlans hvlans
      have hmem : ∀ vid, vid ∈ storedVids items ↔ vid ∈ named items := by
        intro vid
        rw [mem_storedVids hvlans.1]
        refine and_iff_left_of_imp fun hvid heq => ?_
        obtain ⟨v, hv, hvidv⟩ := mem_map.mp hvid
        cases v with
        | single u => exact (hvidv.trans heq : u = 1) ▸ hv
        | inRange u => exact hone ((hvidv.trans heq : u = 1) ▸ hv)
      obtain ⟨vid, hvid⟩ := named_ne_nil (lexList_ne_nil hlex) hvlans
      exact ⟨accepted_of_isVlanList hvlans hshort
        (ne_nil_of_mem ((hmem vid).mpr hvid)), hmem⟩
    refine ⟨⟨fun hsome => ?_, ?_⟩, ?_⟩
    · cases hlex : lexList vlanlist.1 with
      | none =>
        rw [parseVlanlist_of_lexList_none hlex] at hsome
        exact absurd hsome Bool.false_ne_true
      | some items =>
        obtain ⟨words, hwords⟩ := isSome_iff_exists.mp hsome
        refine ⟨items, rfl, ?_⟩
        by_contra hvlans
        exact (hsettled items hlex).other hvlans ((parseVlanlist_eq_some hlex).mp hwords).1
    · rintro ⟨items, hlex, hvlans⟩
      obtain ⟨words, hwords, -⟩ := zeroTerminated_parseVlanlist hlex (hlist items hlex hvlans).1
      rw [hwords]
      rfl
    · intro items hlex hvlans
      obtain ⟨hacc, hmem⟩ := hlist items hlex hvlans
      obtain ⟨words, hwords, hzero, hids⟩ := zeroTerminated_parseVlanlist hlex hacc
      refine ⟨⟨words, hwords, hzero, ?_, fun vid => ?_⟩, ?_⟩
      · rw [hids]
        exact pairwise_sortDistinct _
      · rw [hids, mem_sortDistinct, hmem]
      · refine ⟨_, ?_, inRanges_iff hvlans.1⟩
        rw [parseVlanlistRange_eq hlex hacc.short hvlans.1]
        exact if_pos ⟨lexList_ne_nil hlex, ((hsettled items hlex).vlans hvlans).2.2⟩

def oneToThree : CString := ⟨[49, 45, 51], by decide⟩

/-- The list `1-3` names the VLAN 1, and the list of ids that comes back starts with 2. -/
theorem oneToThree_loses_one : parseVlanlist oneToThree = some [2, 3, 0] ∧
    lexList oneToThree.1 = some [.range [49] [51]] ∧ IsVlanList [.range [49] [51]] ∧
    ¬MeansWhatIsWritten oneToThree := by
  have hlex : lexList oneToThree.1 = some [.range [49] [51]] := by decide +kernel
  have hvlans : IsVlanList [.range [49] [51]] := by decide
  have hparse : parseVlanlist oneToThree = some [2, 3, 0] := by decide
  refine ⟨hparse, hlex, hvlans, fun hmeans => ?_⟩
  obtain ⟨words, hwords, -, -, hmem⟩ := (hmeans.denotes _ hlex hvlans).ids
  obtain rfl : words = [2, 3, 0] := mem_unique hwords hparse
  exact absurd ((hmem 1).mpr (by decide)) (by decide)

end Chanos.Vlan

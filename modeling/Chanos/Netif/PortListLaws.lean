import Chanos.Netif.PortList

/-!
# What a list of ports stands for

An item stands for the ports of a board, from the lower to the upper end. `readings` are the items
of a list together with the module that the items before each of them have left, and the result of
`parse_portlist` is made of their ports (`portlistWithin_eq_ret_some_iff`). When a list of two lists
stands for the ports of both, and when the reading comes to an end in time, is said by
`portlist_join_iff` and `parsers_safe_iff`.
-/

namespace Chanos.Netif

open Lib List Option Nat
variable {sys : System} {items : List PortItem} {it : PortItem} {b : Board}

def Board.Accepted (sys : System) (b : Board) : Prop :=
  AcceptsPort sys.build.config (toChar b.chassis) (toChar b.slot) (toChar b.sub_slot) 1 1

instance (sys : System) (b : Board) : Decidable (b.Accepted sys) :=
  inferInstanceAs (Decidable (AcceptsPort _ _ _ _ _ _))

namespace PortItem

def ports (sys : System) (m : ℕ) (it : PortItem) : List UInt32 :=
  rangePorts ((it.board m).port sys) it.lower it.upper

def Ends (turns : ℕ) (sys : System) (m : ℕ) (it : PortItem) : Prop :=
  it.last = none ∨
    it.upper < ulongMax ∧ ((it.board m).Accepted sys ∨ it.upper + 1 - it.lower ≤ turns)

instance (turns : ℕ) (sys : System) (m : ℕ) (it : PortItem) : Decidable (it.Ends turns sys m) :=
  inferInstanceAs (Decidable (_ ∨ _))

end PortItem

open PortItem

def readings : ℕ → List PortItem → List (ℕ × PortItem)
  | _, [] => []
  | m, it :: items => (m, it) :: readings (it.leftModule m) items

def leftModules (m : ℕ) (items : List PortItem) : ℕ := items.foldl (fun m it => it.leftModule m) m

def listPorts (sys : System) (m : ℕ) (items : List PortItem) : List UInt32 :=
  (readings m items).flatMap fun r => r.2.ports sys r.1

def Readable (turns : ℕ) (sys : System) (m : ℕ) (items : List PortItem) : Prop :=
  ∀ r ∈ readings m items, r.2.Allowed sys ∧ r.2.Ends turns sys r.1

def portItems (str : List UInt8) : List PortItem := (lexPortlist str).getD []

open Board

theorem Board.port_ne_zero_iff {i : ℕ} :
    b.port sys i ≠ 0 ↔
      AcceptsPort sys.build.config (toChar b.chassis) (toChar b.slot) (toChar b.sub_slot)
        (toChar i) 1 := by
  have ho : toChar 1 = 1 := by decide
  rw [port, generateEthIndex, ho]
  split_ifs with ha
  · exact ⟨fun _ => ha, fun _ => portIndex_ne_zero _ _ _ _ _ _⟩
  · exact ⟨absurd rfl, fun h => absurd h ha⟩

theorem Board.port_eq_zero (h : ¬b.Accepted sys) (i : ℕ) : b.port sys i = 0 := by
  by_contra hne
  obtain ⟨hc, hs, hm, -, hq⟩ := port_ne_zero_iff.mp hne
  obtain ⟨-, -, hp, -⟩ := config_le sys.build
  refine h ⟨hc, hs, hm, ⟨Int.one_pos, ?_⟩, hq⟩
  rw [hp]
  decide

theorem Board.port_ne_zero (h : b.Accepted sys) {i : ℕ} (hi : i % 256 = 1) : b.port sys i ≠ 0 := by
  have hc : toChar i = 1 := by
    unfold toChar
    rw [Int.bmod_def]
    omega
  rw [port_ne_zero_iff, hc]
  exact h

/-! ## One item -/

theorem upper_le_of_lexPortItem {w : List UInt8} (h : lexPortItem w = some it) :
    it.upper ≤ ulongMax := by
  have hnu : ∀ {ds : List UInt8} {n : ℕ}, lexNumber ds = some n → n ≤ ulongMax := by
    intro ds n hn
    rw [lexNumber, ite_none_right_eq_some] at hn
    rw [← some.inj hn.2]
    exact min_le_right _ _
  have hps : ∀ {w : List UInt8} {ports : ℕ × Option ℕ}, lexPorts w = some ports →
      max ports.1 (ports.2.getD ports.1) ≤ ulongMax := by
    intro w ports hp
    obtain ⟨p, hf, hp⟩ := bind_eq_some_iff.mp hp
    split at hp
    next =>
      rw [← some.inj hp]
      exact Nat.max_le.mpr ⟨hnu hf, hnu hf⟩
    next c es heq =>
      rw [ite_none_right_eq_some] at hp
      obtain ⟨q, hla, hq⟩ := map_eq_some_iff.mp hp.2
      rw [← hq]
      exact Nat.max_le.mpr ⟨hnu hf, hnu hla⟩
  have hfl : ∀ {ws : List (List UInt8)} {it : PortItem}, lexFields ws = some it →
      it.upper ≤ ulongMax := by
    intro ws
    induction ws with
    | nil =>
      intro it hit
      cases hit
    | cons w ws ih =>
      intro it hit
      rw [lexFields] at hit
      split_ifs at hit
      · obtain ⟨ports, hp, rfl⟩ := map_eq_some_iff.mp hit
        exact hps hp
      · obtain ⟨n, -, hit⟩ := bind_eq_some_iff.mp hit
        obtain ⟨it', hit', rfl⟩ := map_eq_some_iff.mp hit
        exact show it'.upper ≤ ulongMax from ih hit'
  exact hfl (filter_eq_some_iff.mp h).1

theorem PortItem.lower_le_upper (it : PortItem) : it.lower ≤ it.upper :=
  (min_le_left _ _).trans (le_max_left _ _)

def PortItem.Stalls (turns : ℕ) (sys : System) (m : ℕ) (it : PortItem) : Prop :=
  it.Allowed sys ∧ ¬it.Ends turns sys m ∧ ¬(it.board m).Accepted sys

section

variable {turns : ℕ} {sys : System} {m : ℕ} {it : PortItem} {l : List UInt32}

variable (ht : 76800 ≤ turns) (hu : it.upper ≤ ulongMax) (hl : l.length < maxPortNumberInPortlist)
include ht hu hl

theorem PortItem.collect_eq :
    it.collect turns sys (it.board m) l =
      if it.Ends turns sys m then belowMax (l ++ it.ports sys m)
      else .error (if (it.board m).Accepted sys then .null else .endless) := by
  cases hla : it.last with
  | none =>
    have hp : it.ports sys m = [(it.board m).port sys it.first].filter (· ≠ 0) := by
      have hlo : it.lower = it.first := by
        rw [lower, hla]
        exact min_self it.first
      have hup : it.upper = it.first := by
        rw [upper, hla]
        exact max_self it.first
      rw [ports, hlo, hup, rangePorts_of_le (le_refl _),
        rangePorts_of_gt (lt_succ_self _), append_nil]
    rw [if_pos (.inl hla), collect, hla, hp]
    exact storePort_eq hl _
  | some q =>
    have he : it.Ends turns sys m ↔ it.upper < ulongMax ∧
        ((it.board m).Accepted sys ∨ it.upper + 1 - it.lower ≤ turns) := by
      refine or_iff_right fun h => ?_
      rw [hla] at h
      cases h
    rw [collect, hla]
    by_cases ha : (it.board m).Accepted sys
    · rw [if_pos ha, if_congr (he.trans (and_iff_left (.inl ha))) rfl rfl]
      exact rangeLoop_of_often (fun n hn => port_ne_zero ha hn) hl ht it.lower_le_upper hu
    · have hle := it.lower_le_upper
      rw [if_neg ha]
      split_ifs with h
      · obtain ⟨hlt, hsp⟩ := he.mp h
        exact rangeLoop_eq hlt hl (hsp.resolve_left ha)
      refine (rangeLoop_of_never (port_eq_zero ha) hl hu).trans (if_neg ?_)
      rintro (hlt | ⟨hlt, hsp⟩)
      · omega
      · exact h (he.mpr ⟨hlt, Or.inr hsp⟩)

theorem PortItem.read_eq_ok_iff {a : ℕ × List UInt32} :
    it.read turns sys (m, l) = .ok a ↔
      (it.Allowed sys ∧ it.Ends turns sys m) ∧
        (l ++ it.ports sys m).length < maxPortNumberInPortlist ∧
        a = (it.leftModule m, l ++ it.ports sys m) := by
  rw [read, ite_eq_ok, and_assoc]
  refine and_congr_right fun _ => ?_
  rw [collect_eq ht hu hl, belowMax]
  split_ifs with he hlen
  · rw [and_iff_right he, and_iff_right hlen]
    exact ok_eq_ok
  · exact iff_of_false (fun h => by cases h) fun h => hlen h.2.1
  all_goals exact iff_of_false (fun h => by cases h) fun h => he h.1

theorem PortItem.read_eq_error_iff {e : Fault} (he : e ≠ .null) :
    it.read turns sys (m, l) = .error e ↔ e = .endless ∧ it.Stalls turns sys m := by
  rw [read, collect_eq ht hu hl, belowMax, Stalls]
  split_ifs with hallow hends hlen ha
  · exact iff_of_false (fun h => by cases h) fun h => h.2.2.1 hends
  · exact iff_of_false (fun h => he (by cases h; rfl)) fun h => h.2.2.1 hends
  · exact iff_of_false (fun h => he (by cases h; rfl)) fun h => h.2.2.2 ha
  · constructor
    · intro h
      cases h
      exact ⟨rfl, hallow, hends, ha⟩
    · rintro ⟨rfl, -⟩
      rfl
  · exact iff_of_false (fun h => he (by cases h; rfl)) fun h => hallow h.2.1

end

/-! ## Whole lists -/

theorem readings_append (m : ℕ) (items items' : List PortItem) :
    readings m (items ++ items') = readings m items ++ readings (leftModules m items) items' := by
  induction items generalizing m with
  | nil => rfl
  | cons it items ih =>
    rw [cons_append, readings, ih]
    rfl

theorem listPorts_append (sys : System) (m : ℕ) (items items' : List PortItem) :
    listPorts sys m (items ++ items') =
      listPorts sys m items ++ listPorts sys (leftModules m items) items' := by
  rw [listPorts, readings_append, flatMap_append]
  rfl

theorem listPorts_cons (sys : System) (m : ℕ) (it : PortItem) (items : List PortItem) :
    listPorts sys m (it :: items) = it.ports sys m ++ listPorts sys (it.leftModule m) items :=
  flatMap_cons

theorem readable_cons {turns : ℕ} {m : ℕ} :
    Readable turns sys m (it :: items) ↔
      (it.Allowed sys ∧ it.Ends turns sys m) ∧ Readable turns sys (it.leftModule m) items :=
  forall_mem_cons

theorem readable_append {turns : ℕ} {m : ℕ} {items items' : List PortItem} :
    Readable turns sys m (items ++ items') ↔
      Readable turns sys m items ∧ Readable turns sys (leftModules m items) items' := by
  unfold Readable
  rw [readings_append]
  exact forall_mem_append

section

variable {turns : ℕ} {sys : System} {ws : List (List UInt8)}

theorem foldlM_pieces_eq_ok_iff (ht : 76800 ≤ turns) {m : ℕ} {l : List UInt32}
    (hl : l.length < maxPortNumberInPortlist) {a : ℕ × List UInt32} :
    ws.foldlM (readPiece turns sys) (m, l) = .ok a ↔
      ∃ items, ws.mapM lexPortItem = some items ∧ Readable turns sys m items ∧
        (l ++ listPorts sys m items).length < maxPortNumberInPortlist ∧
        a = (leftModules m items, l ++ listPorts sys m items) := by
  induction ws generalizing m l with
  | nil =>
    have hrd : Readable turns sys m [] := fun r hr => absurd hr not_mem_nil
    have hp : l ++ listPorts sys m [] = l := append_nil l
    constructor
    · intro h
      refine ⟨[], rfl, hrd, ?_⟩
      rw [hp]
      exact ⟨hl, ok_eq_ok.mp h⟩
    · rintro ⟨items, hi, -, -, ha⟩
      obtain rfl : [] = items := some.inj hi
      rw [ha, hp]
      rfl
  | cons w ws ih =>
    rw [foldlM_cons, bind_eq_ok, readPiece]
    constructor
    · rintro ⟨b, hrd, hf⟩
      cases hlx : lexPortItem w with rw [hlx] at hrd
      | none => cases hrd
      | some it =>
        obtain ⟨he, hlen, rfl⟩ := (read_eq_ok_iff ht (upper_le_of_lexPortItem hlx) hl).mp hrd
        obtain ⟨items, hi, hre, hlen', ha⟩ := (ih hlen).mp hf
        rw [append_assoc, ← listPorts_cons] at hlen' ha
        exact ⟨it :: items, mapM_cons_eq_some.mpr ⟨it, items, hlx, hi, rfl⟩,
          readable_cons.mpr ⟨he, hre⟩, hlen', ha⟩
    · rintro ⟨_, hi, hre, hlen', ha⟩
      obtain ⟨it, items, hlx, hrs, rfl⟩ := mapM_cons_eq_some.mp hi
      rw [readable_cons] at hre
      rw [listPorts_cons, ← append_assoc] at hlen' ha
      have hlen : (l ++ it.ports sys m).length < maxPortNumberInPortlist := by
        rw [length_append] at hlen'
        omega
      rw [hlx]
      exact ⟨_, (read_eq_ok_iff ht (upper_le_of_lexPortItem hlx) hl).mpr ⟨hre.1, hlen, rfl⟩,
        (ih hlen).mpr ⟨items, hrs, hre.2, hlen', ha⟩⟩

theorem pieces_eq_ok_iff (ht : 76800 ≤ turns) {a : ℕ × List UInt32} :
    ws.foldlM (readPiece turns sys) (0, []) = .ok a ↔
      ∃ items, ws.mapM lexPortItem = some items ∧ Readable turns sys 0 items ∧
        (listPorts sys 0 items).length < maxPortNumberInPortlist ∧
        a = (leftModules 0 items, listPorts sys 0 items) :=
  foldlM_pieces_eq_ok_iff ht (by decide)

theorem portlistWithin_eq_ret_some_iff (ht : 76800 ≤ turns) {str : List UInt8}
    {r : List UInt32} :
    portlistWithin turns sys str = .ret (some r) ↔
      ∃ items, lexPortlist str = some items ∧ Readable turns sys 0 items ∧
        (listPorts sys 0 items).length < maxPortNumberInPortlist ∧
        listPorts sys 0 items ≠ [] ∧ r = sortDistinct (listPorts sys 0 items) := by
  rw [portlistWithin_eq]
  constructor
  · intro h
    cases hf : (str.splitOn comma).foldlM (readPiece turns sys) (0, []) with
    | error e =>
      rw [hf] at h
      cases e <;> cases h
    | ok a =>
      obtain ⟨items, hi, hrd, hlen, rfl⟩ := (pieces_eq_ok_iff ht).mp hf
      rw [hf] at h
      have hr := Outcome.ret.inj h
      rw [ite_none_left_eq_some] at hr
      exact ⟨items, hi, hrd, hlen, hr.1, (some.inj hr.2).symm⟩
  · rintro ⟨items, hi, hrd, hlen, hne, rfl⟩
    have hf := (pieces_eq_ok_iff ht).mpr ⟨items, hi, hrd, hlen, rfl⟩
    rw [hf]
    exact congrArg Outcome.ret (if_neg hne)

end

/-! ## Two lists with a comma between them -/

theorem PortItem.ends_iff {m : ℕ} :
    it.Ends 4294967296 sys m ↔ it.last = none ∨ it.upper < ulongMax := by
  refine or_congr_right (and_iff_left_of_imp fun h => Or.inr ?_)
  unfold ulongMax at h
  omega

theorem Readable.congr {m m' : ℕ}
    (h : Readable 4294967296 sys m items) : Readable 4294967296 sys m' items := by
  induction items generalizing m m' with
  | nil => exact fun r hr => absurd hr not_mem_nil
  | cons it items ih =>
    rw [readable_cons, ends_iff] at h ⊢
    exact ⟨h.1, ih h.2⟩

theorem lexPortlist_append {A B : List UInt8} {items items' : List PortItem}
    (hA : lexPortlist A = some items) (hB : lexPortlist B = some items') :
    lexPortlist (A ++ comma :: B) = some (items ++ items') := by
  unfold lexPortlist at hA hB ⊢
  rw [splitOn_append_cons_self, mapM_append, hA, hB]
  rfl

theorem portItems_eq {str : List UInt8} (h : lexPortlist str = some items) :
    portItems str = items := by
  rw [portItems, h, getD_some]

/-- The second list stands for the same ports behind the first one as alone, apart from ports of the
first one, and there is room for all of them, counted as often as they are found. -/
def Joins (sys : System) (A B : List UInt8) : Prop :=
  let before := listPorts sys 0 (portItems A)
  let behind := listPorts sys (leftModules 0 (portItems A)) (portItems B)
  before.length + behind.length < maxPortNumberInPortlist ∧
    ∀ x, x ∈ before ∨ x ∈ behind ↔ x ∈ before ∨ x ∈ listPorts sys 0 (portItems B)

def PortItem.InRange (k : NetifConfig) (it : PortItem) (i : ℕ) : Prop :=
  (match it.fields with
    | c :: s :: ms =>
      c ≤ k.max_chassis_count ∧ s ≤ k.max_chassis_slot_count ∧
        ∀ m ∈ ms, m ≤ k.max_slot_subboard_count
    | [s] => s ≤ k.max_chassis_slot_count
    | [] => True) ∧
    0 < i ∧ i ≤ k.max_ethport_per_board

def OutOfRangeIsNothing (sys : System) (str : List UInt8) : Prop :=
  ∀ r ∈ readings 0 (portItems str), ∀ i, r.2.lower ≤ i → i ≤ r.2.upper →
    ¬r.2.InRange sys.build.config i → (r.2.board r.1).port sys i = 0

/-- There is a number outside of its range, and what is left of the numbers as a `char` is inside of
the ranges. -/
def Misreads (sys : System) (str : List UInt8) : Prop :=
  ∃ r ∈ readings 0 (portItems str), ∃ i, r.2.lower ≤ i ∧ i ≤ r.2.upper ∧
    ¬r.2.InRange sys.build.config i ∧
    AcceptsPort sys.build.config (toChar (r.2.board r.1).chassis) (toChar (r.2.board r.1).slot)
      (toChar (r.2.board r.1).sub_slot) (toChar i) 1

theorem outOfRangeIsNothing_iff {str : List UInt8} :
    OutOfRangeIsNothing sys str ↔ ¬Misreads sys str := by
  constructor
  · rintro h ⟨r, hr, i, hlo, hup, ho, ha⟩
    exact port_ne_zero_iff.mpr ha (h r hr i hlo hup ho)
  · intro h r hr i hlo hup ho
    by_contra hne
    exact h ⟨r, hr, i, hlo, hup, ho, port_ne_zero_iff.mp hne⟩

/-- **Which lists stand for the ports of their parts.** -/
theorem portlist_join_iff {sys : System} {A B : List UInt8} {a b : List UInt32}
    (hA : parsePortlist sys A = .ret (some a)) (hB : parsePortlist sys B = .ret (some b)) :
    (parsePortlist sys (A ++ comma :: B) = .ret (some (sortDistinct (a ++ b))) ∧
        OutOfRangeIsNothing sys (A ++ comma :: B)) ↔
      Joins sys A B ∧ ¬Misreads sys (A ++ comma :: B) := by
  have hturns : 76800 ≤ 4294967296 := by decide
  obtain ⟨itemsA, hitemsA, hreadA, -, hneA, rfl⟩ := (portlistWithin_eq_ret_some_iff hturns).mp hA
  obtain ⟨itemsB, hitemsB, hreadB, -, -, rfl⟩ := (portlistWithin_eq_ret_some_iff hturns).mp hB
  have hread : Readable 4294967296 sys 0 (itemsA ++ itemsB) :=
    readable_append.mpr ⟨hreadA, hreadB.congr⟩
  have hne : listPorts sys 0 (itemsA ++ itemsB) ≠ [] := by
    rw [listPorts_append]
    exact append_ne_nil_of_left_ne_nil hneA _
  rw [outOfRangeIsNothing_iff]
  refine and_congr_left fun _ => ?_
  rw [parsePortlist, portlistWithin_eq_ret_some_iff hturns, Joins, portItems_eq hitemsA,
    portItems_eq hitemsB, ← length_append, ← listPorts_append]
  constructor
  · rintro ⟨items, hitems, -, hlen, -, heq⟩
    obtain rfl : itemsA ++ itemsB = items :=
      some.inj ((lexPortlist_append hitemsA hitemsB).symm.trans hitems)
    refine ⟨hlen, fun x => ?_⟩
    rw [← mem_append, ← listPorts_append, ← mem_sortDistinct, ← heq, mem_sortDistinct,
      mem_append, mem_sortDistinct, mem_sortDistinct]
  · rintro ⟨hlen, hmem⟩
    refine ⟨itemsA ++ itemsB, lexPortlist_append hitemsA hitemsB, hread, hlen, hne, ?_⟩
    refine sortDistinct_congr fun x => ?_
    rw [mem_append, mem_sortDistinct, mem_sortDistinct, ← hmem, listPorts_append,
      mem_append]

def moduleTwoText : List UInt8 := [49, 47, 49, 47, 50, 47, 51]

def portFiveText : List UInt8 := [49, 47, 49, 47, 53]

def portOneText : List UInt8 := [49, 47, 49, 47, 49]

/-- Two lists of one port each. -/
theorem portlist_join_one_five :
    parsePortlist chassisSystem portOneText = .ret (some [ethIfindex 0 0 0 0 0]) ∧
      parsePortlist chassisSystem portFiveText = .ret (some [ethIfindex 0 0 0 4 0]) ∧
      ((parsePortlist chassisSystem (portOneText ++ comma :: portFiveText) =
            .ret (some (sortDistinct ([ethIfindex 0 0 0 0 0] ++ [ethIfindex 0 0 0 4 0]))) ∧
          OutOfRangeIsNothing chassisSystem (portOneText ++ comma :: portFiveText)) ↔
        Joins chassisSystem portOneText portFiveText ∧
          ¬Misreads chassisSystem (portOneText ++ comma :: portFiveText)) :=
  ⟨by decide +kernel, by decide +kernel,
    portlist_join_iff (by decide +kernel) (by decide +kernel)⟩

/-- Behind an item with the module 2, the port 5 of the board is read as the port 5 of this
module. -/
theorem moduleTwo_is_kept :
    parsePortlist chassisSystem moduleTwoText = .ret (some [ethIfindex 0 0 2 2 0]) ∧
      parsePortlist chassisSystem portFiveText = .ret (some [ethIfindex 0 0 0 4 0]) ∧
      parsePortlist chassisSystem (moduleTwoText ++ comma :: portFiveText) =
        .ret (some [ethIfindex 0 0 2 2 0, ethIfindex 0 0 2 4 0]) ∧
      ethIfindex 0 0 2 4 0 ≠ ethIfindex 0 0 0 4 0 := by
  refine ⟨?_, ?_, ?_, ?_⟩ <;> decide +kernel

/-! ## The end of the reading -/

def RunsLong (turns : ℕ) (sys : System) (str : List UInt8) : Prop :=
  ∃ pre w post items it, str.splitOn comma = pre ++ w :: post ∧
    pre.mapM lexPortItem = some items ∧ lexPortItem w = some it ∧
    Readable turns sys 0 items ∧ (listPorts sys 0 items).length < maxPortNumberInPortlist ∧
    it.Stalls turns sys (leftModules 0 items)

section

variable {turns : ℕ} {sys : System} {str : List UInt8}

theorem pieces_eq_error_iff (ht : 76800 ≤ turns) {e : Fault} (he : e ≠ .null) :
    (str.splitOn comma).foldlM (readPiece turns sys) (0, []) = .error e ↔
      e = .endless ∧ RunsLong turns sys str := by
  rw [foldlM_eq_error]
  constructor
  · rintro ⟨pre, w, post, a, hws, hp, hw⟩
    obtain ⟨items, hi, hrd, hlen, rfl⟩ := (pieces_eq_ok_iff ht).mp hp
    unfold readPiece at hw
    cases hlx : lexPortItem w with rw [hlx] at hw
    | none => exact absurd (Except.error.inj hw).symm he
    | some it =>
      obtain ⟨rfl, hsa⟩ := (read_eq_error_iff ht (upper_le_of_lexPortItem hlx) hlen he).mp hw
      exact ⟨rfl, pre, w, post, items, it, hws, hi, hlx, hrd, hlen, hsa⟩
  · rintro ⟨rfl, pre, w, post, items, it, hws, hi, hlx, hrd, hlen, hsa⟩
    refine ⟨pre, w, post, _, hws, (pieces_eq_ok_iff ht).mpr ⟨items, hi, hrd, hlen, rfl⟩, ?_⟩
    rw [readPiece, hlx]
    exact (read_eq_error_iff ht (upper_le_of_lexPortItem hlx) hlen he).mpr ⟨rfl, hsa⟩

theorem portlistWithin_eq_endless_iff (ht : 76800 ≤ turns) :
    portlistWithin turns sys str = .endless ↔ RunsLong turns sys str := by
  have he : (str.splitOn comma).foldlM (readPiece turns sys) (0, []) = .error .endless ↔ _ :=
    pieces_eq_error_iff ht (by decide)
  rw [and_iff_right rfl] at he
  rw [← he, portlistWithin_eq]
  rcases (str.splitOn comma).foldlM (readPiece turns sys) (0, []) with (_ | _ | _) | a <;>
    simp [portlistResult, Except.map]

theorem portlistWithin_ne_overrun (ht : 76800 ≤ turns) :
    portlistWithin turns sys str ≠ .overrun := by
  have ho : (str.splitOn comma).foldlM (readPiece turns sys) (0, []) ≠ .error .overrun :=
    mt (pieces_eq_error_iff ht (by decide)).mp fun h => Fault.noConfusion h.1
  rw [portlistWithin_eq]
  revert ho
  rcases (str.splitOn comma).foldlM (readPiece turns sys) (0, []) with (_ | _ | _) | a <;>
    simp [portlistResult, Except.map]

theorem exists_ret_iff {α : Type} {x : Outcome α} :
    (∃ a, x = .ret a) ↔ x ≠ .overrun ∧ x ≠ .endless := by
  cases x with
  | ret a => exact ⟨fun _ => ⟨(fun h => by cases h), (fun h => by cases h)⟩, fun _ => ⟨a, rfl⟩⟩
  | overrun =>
    refine ⟨?_, fun h => absurd rfl h.1⟩
    rintro ⟨a, h⟩
    cases h
  | endless =>
    refine ⟨?_, fun h => absurd rfl h.2⟩
    rintro ⟨a, h⟩
    cases h

theorem exists_parseFields_iff : (∃ r, parseFields str = .ret r) ↔ ¬FiveThenDot str := by
  obtain ⟨hend, hover, -⟩ := parseFields_spec str
  rw [exists_ret_iff, and_iff_left hend, Ne, hover]

theorem exists_parseStrToEthIndex_iff :
    (∃ r, parseStrToEthIndex sys str = .ret r) ↔ ∃ r, parseFields str = .ret r := by
  unfold parseStrToEthIndex
  rcases parseFields str with (_ | f) | _ | _ <;> simp

theorem exists_parseChassisSlotModulePortSubportNo_iff :
    (∃ r, parseChassisSlotModulePortSubportNo str = .ret r) ↔ ∃ r, parseFields str = .ret r := by
  unfold parseChassisSlotModulePortSubportNo
  rcases parseFields str with (_ | f) | _ | _ <;> simp

/-- **Which texts are safe to read.** The three parsers return, within a number of turns for each
range that is enough for a board that is accepted, and do not write outside of their arrays, unless
there are five numbers with a dot behind them, or a range with more numbers than turns on a board
that is refused. -/
theorem parsers_safe_iff (hturns : 76800 ≤ turns) (sys : System) (str : List UInt8) :
    ((∃ r, portlistWithin turns sys str = .ret r) ∧
        (∃ r, parseChassisSlotModulePortSubportNo str = .ret r) ∧
        ∃ r, parseStrToEthIndex sys str = .ret r) ↔
      ¬RunsLong turns sys str ∧ ¬FiveThenDot str := by
  have hlist : (∃ r, portlistWithin turns sys str = .ret r) ↔ ¬RunsLong turns sys str := by
    rw [exists_ret_iff, and_iff_right (portlistWithin_ne_overrun hturns), Ne,
      portlistWithin_eq_endless_iff hturns]
  rw [hlist, exists_parseChassisSlotModulePortSubportNo_iff, exists_parseStrToEthIndex_iff,
    exists_parseFields_iff, and_self]

end

/-- The port 5 is read within 100000 turns. -/
theorem parsers_safe_portFive :
    76800 ≤ 100000 ∧
      (((∃ r, portlistWithin 100000 chassisSystem portFiveText = .ret r) ∧
          (∃ r, parseChassisSlotModulePortSubportNo portFiveText = .ret r) ∧
          ∃ r, parseStrToEthIndex chassisSystem portFiveText = .ret r) ↔
        ¬RunsLong 100000 chassisSystem portFiveText ∧ ¬FiveThenDot portFiveText) :=
  ⟨by decide, parsers_safe_iff (by decide) chassisSystem portFiveText⟩

def endlessText : List UInt8 :=
  [49, 47, 57, 57, 47, 49, 45, 52, 50, 57, 52, 57, 54, 55, 50, 57, 53]

def sixNumbersText : List UInt8 := [49, 47, 50, 47, 51, 47, 52, 47, 53, 46, 54]

/-- A range up to the largest number on the slot 99 does not end, and a dot behind five numbers lets
the sixth be written outside of the array. -/
theorem endlessText_sixNumbersText :
    (∀ turns, 76800 ≤ turns → portlistWithin turns chassisSystem endlessText = .endless) ∧
      parseStrToEthIndex chassisSystem sixNumbersText = .overrun ∧
      parseChassisSlotModulePortSubportNo sixNumbersText = .overrun := by
  have hfields : parseFields sixNumbersText = .overrun := by decide +kernel
  refine ⟨fun turns hturns => ?_, ?_, ?_⟩
  · -- the only item is a range on a board that is refused
    rw [portlistWithin_eq_endless_iff hturns]
    refine ⟨[], endlessText, [], [], ⟨[1, 99], 1, some 4294967295⟩, by decide +kernel, rfl,
      by decide +kernel, ?_, by decide, ?_, ?_, ?_⟩
    · exact fun r hr => absurd hr not_mem_nil
    · exact Or.inr (by decide)
    · rintro (h | ⟨h, -⟩)
      · cases h
      · exact absurd h (by decide +kernel)
    · decide +kernel
  · rw [parseStrToEthIndex, hfields]
  · rw [parseChassisSlotModulePortSubportNo, hfields]

end Chanos.Netif

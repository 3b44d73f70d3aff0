import Chanos.Lib.Except
import Chanos.Netif.PortName

/-!
# The ports of a range

`parse_portlist` keeps the indexes it has found in an array of 300 words (`storePort`), and a full
array ends the reading with the result `NULL`. For a range of ports the index of each number is
made, by a loop whose counter is an `unsigned long`.
-/

namespace Chanos.Netif

open Lib List Nat

inductive Fault
  | null
  | overrun
  | endless
  deriving DecidableEq

def maxPortNumberInPortlist : ℕ := 300

def storePort (ulInterfaceList : List UInt32) (ulIfindex : UInt32) : Except Fault (List UInt32) :=
  if ulIfindex ≠ 0 ∧ maxPortNumberInPortlist ≤ ulInterfaceList.length then .error .overrun
  else
    let list := if ulIfindex ≠ 0 then ulInterfaceList ++ [ulIfindex] else ulInterfaceList
    if maxPortNumberInPortlist ≤ list.length then .error .null else .ok list

def rangeLoop (port : ℕ → UInt32) (i_e : ℕ) :
    ℕ → ℕ → List UInt32 → Except Fault (List UInt32)
  | 0, i, list => if i_e < i then .ok list else .error .endless
  | turns + 1, i, list =>
    if i_e < i then .ok list
    else do
      let list ← storePort list (port i)
      rangeLoop port i_e turns ((i + 1) % 4294967296) list

def belowMax (list : List UInt32) : Except Fault (List UInt32) :=
  if list.length < maxPortNumberInPortlist then .ok list else .error .null

def rangePorts (port : ℕ → UInt32) (i i_e : ℕ) : List UInt32 :=
  ((List.range' i (i_e + 1 - i)).map port).filter (· ≠ 0)

/-! ## One turn -/

theorem belowMax_append {l l' : List UInt32} (h : belowMax l = .error .null) :
    belowMax (l ++ l') = .error .null := by
  unfold belowMax at h ⊢
  split_ifs at h with hlen
  refine if_neg ?_
  rw [length_append]
  omega

theorem storePort_eq {l : List UInt32} (hl : l.length < maxPortNumberInPortlist) (x : UInt32) :
    storePort l x = belowMax (l ++ [x].filter (· ≠ 0)) := by
  have hr : ¬(x ≠ 0 ∧ maxPortNumberInPortlist ≤ l.length) := fun h => not_le.mpr hl h.2
  have hli : (if x ≠ 0 then l ++ [x] else l) = l ++ [x].filter (· ≠ 0) := by
    by_cases hx : x = 0
    · rw [if_neg (not_not.mpr hx), filter_cons_of_neg (by simpa using hx), filter_nil, append_nil]
    · rw [if_pos hx, filter_cons_of_pos (by simpa using hx), filter_nil]
  rw [storePort, if_neg hr]
  rw [hli, belowMax, ← ite_not]
  exact if_congr not_le rfl rfl

theorem belowMax_eq_ok {l l' : List UInt32} :
    belowMax l = .ok l' ↔ l.length < maxPortNumberInPortlist ∧ l' = l := by
  rw [belowMax, ite_eq_ok, ok_eq_ok]

theorem belowMax_cases (l : List UInt32) :
    (belowMax l = .ok l ∧ l.length < maxPortNumberInPortlist) ∨ belowMax l = .error .null := by
  unfold belowMax
  split_ifs with hlen
  · exact Or.inl ⟨rfl, hlen⟩
  · exact Or.inr rfl

section

variable {port : ℕ → UInt32} {i_e turns i : ℕ} {l : List UInt32}

theorem rangeLoop_of_gt (h : i_e < i) : rangeLoop port i_e turns i l = .ok l := by
  cases turns with
  | zero | succ turns => exact if_pos h

theorem rangeLoop_succ (h : i ≤ i_e) :
    rangeLoop port i_e (turns + 1) i l =
      storePort l (port i) >>= rangeLoop port i_e turns ((i + 1) % 4294967296) := by
  rw [rangeLoop, if_neg (not_lt.mpr h)]

theorem rangeLoop_zero (h : i ≤ i_e) : rangeLoop port i_e 0 i l = .error .endless :=
  if_neg (not_lt.mpr h)

theorem rangePorts_of_le (h : i ≤ i_e) :
    rangePorts port i i_e = [port i].filter (· ≠ 0) ++ rangePorts port (i + 1) i_e := by
  have hc : i_e + 1 - i = (i_e + 1 - (i + 1)) + 1 := by omega
  rw [rangePorts, hc, range'_succ, map_cons, ← singleton_append, filter_append]
  rfl

theorem rangePorts_of_gt (h : i_e < i) : rangePorts port i i_e = [] := by
  have hc : i_e + 1 - i = 0 := by omega
  rw [rangePorts, hc]
  rfl

/-! ## Whole loops -/

theorem rangeLoop_add (more : ℕ) (h : rangeLoop port i_e turns i l ≠ .error .endless) :
    rangeLoop port i_e (turns + more) i l = rangeLoop port i_e turns i l := by
  induction turns generalizing i l with
  | zero =>
    have hlt : i_e < i := by
      by_contra hle
      exact h (rangeLoop_zero (not_lt.mp hle))
    rw [rangeLoop_of_gt hlt, rangeLoop_of_gt hlt]
  | succ turns ih =>
    by_cases hlt : i_e < i
    · rw [rangeLoop_of_gt hlt, rangeLoop_of_gt hlt]
    have hle : i ≤ i_e := not_lt.mp hlt
    have ht : turns + 1 + more = turns + more + 1 := by omega
    rw [ht, rangeLoop_succ hle, rangeLoop_succ hle]
    rw [rangeLoop_succ hle] at h
    cases hso : storePort l (port i) with
    | error e => rfl
    | ok l' =>
      rw [hso] at h
      exact ih h

theorem rangeLoop_eq (he : i_e < ulongMax) (hl : l.length < maxPortNumberInPortlist)
    (ht : i_e + 1 - i ≤ turns) :
    rangeLoop port i_e turns i l = belowMax (l ++ rangePorts port i i_e) := by
  induction turns generalizing i l with
  | zero =>
    have hlt : i_e < i := by omega
    rw [rangeLoop_of_gt hlt, rangePorts_of_gt hlt, append_nil]
    exact (if_pos hl).symm
  | succ turns ih =>
    by_cases hlt : i_e < i
    · rw [rangeLoop_of_gt hlt, rangePorts_of_gt hlt, append_nil]
      exact (if_pos hl).symm
    have hle : i ≤ i_e := not_lt.mp hlt
    have hnx : (i + 1) % 4294967296 = i + 1 := by
      unfold ulongMax at he
      exact mod_eq_of_lt (by omega)
    rw [rangeLoop_succ hle, storePort_eq hl, hnx, rangePorts_of_le hle, ← append_assoc]
    rcases belowMax_cases (l ++ [port i].filter (· ≠ 0)) with ⟨hok, hlen⟩ | hn
    · rw [hok]
      exact ih hlen (by omega)
    · rw [hn, belowMax_append hn]
      rfl

theorem rangeLoop_ulongMax_ne_ok (hi : i ≤ ulongMax) (l' : List UInt32) :
    rangeLoop port ulongMax turns i l ≠ .ok l' := by
  induction turns generalizing i l with
  | zero =>
    rw [rangeLoop_zero hi]
    exact nofun
  | succ turns ih =>
    have hn : (i + 1) % 4294967296 ≤ ulongMax := by
      unfold ulongMax
      omega
    rw [rangeLoop_succ hi]
    cases hso : storePort l (port i) with
    | error e => exact nofun
    | ok l' => exact ih hn

theorem rangeLoop_of_never (hp : ∀ n, port n = 0) (hl : l.length < maxPortNumberInPortlist)
    (he : i_e ≤ ulongMax) :
    rangeLoop port i_e turns i l =
      if i_e < i ∨ i_e < ulongMax ∧ i_e + 1 - i ≤ turns then .ok l else .error .endless := by
  have hso : ∀ n, storePort l (port n) = .ok l := by
    intro n
    rw [storePort_eq hl, hp, belowMax_eq_ok]
    rw [filter_cons_of_neg (by simp), filter_nil, append_nil]
    exact ⟨hl, rfl⟩
  induction turns generalizing i with
  | zero =>
    rw [rangeLoop]
    exact if_congr (by omega) rfl rfl
  | succ turns ih =>
    by_cases hlt : i_e < i
    · rw [rangeLoop_of_gt hlt, if_pos (Or.inl hlt)]
    have hle : i ≤ i_e := not_lt.mp hlt
    rw [rangeLoop_succ hle, hso]
    calc rangeLoop port i_e turns ((i + 1) % 4294967296) l = _ := ih
      _ = _ := by
        unfold ulongMax at he ⊢
        refine if_congr ?_ rfl rfl
        -- the counter starts over behind the largest number only
        by_cases ht : i = 4294967295
        · omega
        · have hn : (i + 1) % 4294967296 = i + 1 := mod_eq_of_lt (by omega)
          omega

def turnsToFull (i : ℕ) (l : List UInt32) : ℕ :=
  (maxPortNumberInPortlist - 1 - l.length) * 256 + (257 - i % 256) % 256 + 1

theorem turnsToFull_le (i : ℕ) (l : List UInt32) : turnsToFull i l ≤ 76800 := by
  unfold turnsToFull maxPortNumberInPortlist
  omega

theorem turnsToFull_succ (hoften : i % 256 = 1 → port i ≠ 0)
    (hlen : (l ++ [port i].filter (· ≠ 0)).length < maxPortNumberInPortlist) :
    turnsToFull ((i + 1) % 4294967296) (l ++ [port i].filter (· ≠ 0)) < turnsToFull i l := by
  have hmo : (i + 1) % 4294967296 % 256 = (i + 1) % 256 := by omega
  unfold turnsToFull maxPortNumberInPortlist at *
  rw [hmo]
  by_cases hi : port i = 0
  · have hne : i % 256 ≠ 1 := fun h => hoften h hi
    rw [filter_cons_of_neg (by simpa using hi), filter_nil, append_nil]
    omega
  · rw [filter_cons_of_pos (by simpa using hi), filter_nil] at hlen ⊢
    rw [length_append, length_singleton] at hlen ⊢
    omega

section

variable (hoften : ∀ n, n % 256 = 1 → port n ≠ 0) (hl : l.length < maxPortNumberInPortlist)
include hoften hl

theorem rangeLoop_ne_error (ht : turnsToFull i l ≤ turns) {e : Fault} (he : e ≠ .null) :
    rangeLoop port i_e turns i l ≠ .error e := by
  induction turns generalizing i l with
  | zero =>
    unfold turnsToFull at ht
    omega
  | succ turns ih =>
    by_cases hlt : i_e < i
    · rw [rangeLoop_of_gt hlt]
      exact nofun
    rw [rangeLoop_succ (not_lt.mp hlt), storePort_eq hl]
    rcases belowMax_cases (l ++ [port i].filter (· ≠ 0)) with ⟨hok, hlen⟩ | hn
    · rw [hok]
      have hls := turnsToFull_succ (hoften i) hlen
      exact ih hlen (by omega)
    · rw [hn]
      exact fun h => he (Except.error.inj h).symm

theorem rangeLoop_of_often (ht : 76800 ≤ turns) (hi : i ≤ i_e) (he : i_e ≤ ulongMax) :
    rangeLoop port i_e turns i l =
      if i_e < ulongMax then belowMax (l ++ rangePorts port i i_e) else .error .null := by
  have hne {e : Fault} (he : e ≠ .null) : rangeLoop port i_e turns i l ≠ .error e :=
    rangeLoop_ne_error hoften hl ((turnsToFull_le i l).trans ht) he
  split_ifs with hlt
  · rw [← rangeLoop_add (i_e + 1 - i) (hne (by decide))]
    exact rangeLoop_eq hlt hl (le_add_left _ _)
  obtain rfl : i_e = ulongMax := le_antisymm he (not_lt.mp hlt)
  cases hlp : rangeLoop port ulongMax turns i l with
  | ok l' => exact absurd hlp (rangeLoop_ulongMax_ne_ok hi l')
  | error e =>
    cases e with
    | null => rfl
    | overrun | endless => exact absurd hlp (hne (by decide))

end

end

end Chanos.Netif

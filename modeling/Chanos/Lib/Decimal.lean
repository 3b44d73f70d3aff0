import Mathlib.Algebra.Order.Ring.Nat
import Mathlib.Data.List.Induction
import Mathlib.Data.List.TakeWhile

/-!
# Numbers in decimal

`decimal` is what `%d` prints of a number, and `paddedDecimal` what `%.wd` prints, with zeros in
front up to `w` digits. `decimalValue` reads digits back (`decimalValue_decimal`,
`decimalValue_paddedDecimal`), so that no two numbers are printed alike.
-/

namespace Chanos.Lib

open List Nat

variable {c : UInt8}

def isDigit (c : UInt8) : Bool := 48 ≤ c && c ≤ 57

def isSpace (c : UInt8) : Bool := c == 32 || 9 ≤ c && c ≤ 13

variable (n : ℕ)

def digit : UInt8 := UInt8.ofNat (48 + n % 10)

def decimalValue (ds : List UInt8) : ℕ := ds.foldl (fun n c => 10 * n + (c.toNat - 48)) 0

def decimalDigits : ℕ → ℕ → List UInt8
  | 0, n => [digit n]
  | k + 1, n => if n < 10 then [digit n] else decimalDigits k (n / 10) ++ [digit n]

def decimal : List UInt8 := decimalDigits n n

def paddedDecimal (w n : ℕ) : List UInt8 :=
  List.replicate (w - (decimal n).length) 48 ++ decimal n

theorem isDigit_digit : isDigit (digit n) = true := by
  have ha : ∀ d < 10, isDigit (UInt8.ofNat (48 + d)) = true := by decide
  exact ha (n % 10) (mod_lt n (by decide))

theorem toNat_digit : (digit n).toNat - 48 = n % 10 := by
  have ha : ∀ d < 10, (UInt8.ofNat (48 + d)).toNat - 48 = d := by decide
  exact ha (n % 10) (mod_lt n (by decide))

theorem toNat_of_isDigit (h : isDigit c = true) : 48 ≤ c.toNat ∧ c.toNat ≤ 57 := by
  rw [isDigit, Bool.and_eq_true, decide_eq_true_eq, decide_eq_true_eq] at h
  exact ⟨UInt8.le_iff_toNat_le.mp h.1, UInt8.le_iff_toNat_le.mp h.2⟩

theorem toNat_sub_lt_of_isDigit (h : isDigit c = true) : c.toNat - 48 < 10 := by
  have hle : c.toNat ≤ 57 := (toNat_of_isDigit h).2
  omega

theorem ne_of_isDigit {c d : UInt8} (hc : isDigit c = true) (hd : isDigit d = false) : c ≠ d := by
  rintro rfl
  rw [hc] at hd
  exact Bool.noConfusion hd

theorem decimalValue_concat (ds : List UInt8) (c : UInt8) :
    decimalValue (ds ++ [c]) = 10 * decimalValue ds + (c.toNat - 48) := by
  rw [decimalValue, foldl_append]
  rfl

theorem decimalValue_append (ds es : List UInt8) :
    decimalValue (ds ++ es) = decimalValue es + 10 ^ es.length * decimalValue ds := by
  induction es using reverseRecOn with
  | nil => simp [decimalValue]
  | append_singleton es c ih =>
    rw [← append_assoc, decimalValue_concat, decimalValue_concat, ih, length_append,
      length_singleton, pow_succ, Nat.mul_comm _ 10, Nat.mul_assoc]
    omega

theorem decimalValue_replicate_append (k : ℕ) (ds : List UInt8) :
    decimalValue (replicate k 48 ++ ds) = decimalValue ds := by
  induction k with
  | zero => rfl
  | succ k ih => exact ih

theorem decimalValue_lt {ds : List UInt8} (h : ∀ c ∈ ds, isDigit c = true) :
    decimalValue ds < 10 ^ ds.length := by
  induction ds using reverseRecOn with
  | nil => decide
  | append_singleton ds c ih =>
    have hds : decimalValue ds < 10 ^ ds.length :=
      ih fun d hd => h d (mem_append_left _ hd)
    have hc : c.toNat - 48 < 10 :=
      toNat_sub_lt_of_isDigit (h c (mem_append_right _ mem_cons_self))
    rw [decimalValue_concat, length_append, length_singleton, pow_succ]
    omega

/-! ## What is printed -/

theorem decimalDigits_ne_nil (k n : ℕ) : decimalDigits k n ≠ [] := by
  cases k with
  | zero => exact cons_ne_nil _ _
  | succ k =>
    unfold decimalDigits
    split_ifs
    · exact cons_ne_nil _ _
    · exact append_ne_nil_of_right_ne_nil _ (cons_ne_nil _ _)

theorem isDigit_of_mem_decimalDigits {k n : ℕ} (hc : c ∈ decimalDigits k n) : isDigit c = true := by
  induction k generalizing n with
  | zero =>
    rw [mem_singleton.mp hc]
    exact isDigit_digit n
  | succ k ih =>
    unfold decimalDigits at hc
    split_ifs at hc
    · rw [mem_singleton.mp hc]
      exact isDigit_digit n
    · rcases mem_append.mp hc with hc | hc
      · exact ih hc
      · rw [mem_singleton.mp hc]
        exact isDigit_digit n

theorem decimalValue_decimalDigits {k n : ℕ} (h : n ≤ k) : decimalValue (decimalDigits k n) = n := by
  have ho : ∀ {m : ℕ}, m < 10 → decimalValue [digit m] = m := fun {m} hm => by
    calc decimalValue [digit m] = 10 * 0 + ((digit m).toNat - 48) := rfl
      _ = m % 10 := by rw [toNat_digit, mul_zero, zero_add]
      _ = m := mod_eq_of_lt hm
  induction k generalizing n with
  | zero => exact ho (by omega)
  | succ k ih =>
    unfold decimalDigits
    split_ifs with hn
    · exact ho hn
    · rw [decimalValue_concat, ih (by omega), toNat_digit]
      omega

theorem decimal_ne_nil : decimal n ≠ [] := decimalDigits_ne_nil n n

theorem isDigit_of_mem_decimal {n : ℕ} (hc : c ∈ decimal n) : isDigit c = true :=
  isDigit_of_mem_decimalDigits hc

@[simp] theorem decimalValue_decimal : decimalValue (decimal n) = n :=
  decimalValue_decimalDigits (le_refl n)

@[simp] theorem decimalValue_paddedDecimal (w n : ℕ) : decimalValue (paddedDecimal w n) = n := by
  rw [paddedDecimal, decimalValue_replicate_append, decimalValue_decimal]

theorem length_decimalDigits_le {k n j : ℕ} (hj : 0 < j) (h : n < 10 ^ j) :
    (decimalDigits k n).length ≤ j := by
  induction k generalizing n j with
  | zero => exact hj
  | succ k ih =>
    unfold decimalDigits
    split_ifs with hn
    · exact hj
    obtain ⟨i, rfl⟩ : ∃ i, j = i + 1 := ⟨j - 1, by omega⟩
    have hi : 0 < i := by
      rcases Nat.eq_zero_or_pos i with rfl | hi
      · rw [zero_add, pow_one] at h
        omega
      · exact hi
    have hd : n / 10 < 10 ^ i := by
      rw [pow_succ] at h
      omega
    rw [length_append, length_singleton]
    exact succ_le_succ (ih hi hd)

theorem length_decimal_le {n j : ℕ} (hj : 0 < j) (h : n < 10 ^ j) : (decimal n).length ≤ j :=
  length_decimalDigits_le hj h

/-! ## Texts of several numbers -/

def numbersText (rest : List (UInt8 × ℕ)) : List UInt8 :=
  decimal n ++ rest.flatMap fun p => p.1 :: decimal p.2

theorem takeWhile_digits_append {ds r : List UInt8} (hds : ∀ c ∈ ds, isDigit c = true)
    (hr : ∀ c ∈ r.head?, isDigit c = false) : (ds ++ r).takeWhile isDigit = ds := by
  rw [takeWhile_append_of_pos hds]
  cases r with
  | nil => rw [takeWhile_nil, append_nil]
  | cons c r => rw [takeWhile_cons_of_neg (by rw [hr c rfl]; decide), append_nil]

theorem digits_append_inj {ds ds' r r' : List UInt8} (hds : ∀ c ∈ ds, isDigit c = true)
    (hds' : ∀ c ∈ ds', isDigit c = true) (hr : ∀ c ∈ r.head?, isDigit c = false)
    (hr' : ∀ c ∈ r'.head?, isDigit c = false) (h : ds ++ r = ds' ++ r') : ds = ds' ∧ r = r' := by
  have heq : ds = ds' := by
    calc ds = (ds ++ r).takeWhile isDigit := (takeWhile_digits_append hds hr).symm
      _ = (ds' ++ r').takeWhile isDigit := by rw [h]
      _ = ds' := takeWhile_digits_append hds' hr'
  subst heq
  exact ⟨rfl, append_cancel_left h⟩

theorem numbersText_inj {n n' : ℕ} {rest rest' : List (UInt8 × ℕ)}
    (hrs : ∀ p ∈ rest, isDigit p.1 = false) (hrs' : ∀ p ∈ rest', isDigit p.1 = false)
    (h : numbersText n rest = numbersText n' rest') : n = n' ∧ rest = rest' := by
  have hh : ∀ {ps : List (UInt8 × ℕ)}, (∀ p ∈ ps, isDigit p.1 = false) →
      ∀ c ∈ (ps.flatMap fun p => p.1 :: decimal p.2).head?, isDigit c = false := by
    intro ps hp c hc
    cases ps with
    | nil => exact absurd hc (Option.not_mem_none c)
    | cons p ps =>
      rw [flatMap_cons, cons_append, head?_cons, Option.mem_some_iff] at hc
      exact hc ▸ hp p mem_cons_self
  -- the induction goes along the first list, reading one number off both texts
  induction rest generalizing n n' rest' with
    (obtain ⟨hn, hr⟩ := digits_append_inj (fun _ => isDigit_of_mem_decimal)
      (fun _ => isDigit_of_mem_decimal) (hh hrs) (hh hrs') h
     refine ⟨by rw [← decimalValue_decimal n, hn, decimalValue_decimal], ?_⟩)
  | nil =>
    cases rest' with
    | nil => rfl
    | cons p ps =>
      rw [flatMap_cons, cons_append] at hr
      exact absurd hr.symm (cons_ne_nil _ _)
  | cons p ps ih =>
    cases rest' with
    | nil =>
      rw [flatMap_cons, cons_append] at hr
      exact absurd hr (cons_ne_nil _ _)
    | cons q qs =>
      rw [flatMap_cons, flatMap_cons, cons_append, cons_append] at hr
      obtain ⟨hcr, ht⟩ := cons.inj hr
      obtain ⟨hnu, hq⟩ := ih (fun x hx => hrs x (mem_cons_of_mem p hx))
        (fun x hx => hrs' x (mem_cons_of_mem q hx)) ht
      rw [Prod.ext hcr hnu, hq]

/-! ## Reading a word -/

def ulongMax : ℕ := 4294967295

def strtoulDigits (ds : List UInt8) : ℕ := min (decimalValue ds) ulongMax

def signOf : List UInt8 → Bool × List UInt8
  | [] => (false, [])
  | c :: s => if c = 45 then (true, s) else if c = 43 then (false, s) else (false, c :: s)

def strtoul (s : List UInt8) : ℕ × List UInt8 :=
  let signed := signOf (s.dropWhile isSpace)
  let ds := signed.2.takeWhile isDigit
  if ds = [] then (0, s)
  else
    let v := decimalValue ds
    (if ulongMax < v then ulongMax
      else if signed.1 then (ulongMax + 1 - v) % (ulongMax + 1) else v,
      signed.2.dropWhile isDigit)

theorem isSpace_of_isDigit (h : isDigit c = true) : isSpace c = false := by
  obtain ⟨hlo, -⟩ := toNat_of_isDigit h
  have hb : c ≠ 32 := by
    rintro rfl
    exact absurd hlo (by decide)
  have ht : ¬c ≤ 13 := by
    intro hle
    have hn : c.toNat ≤ 13 := UInt8.le_iff_toNat_le.mp hle
    omega
  rw [isSpace, beq_eq_false_iff_ne.mpr hb, decide_eq_false ht, Bool.and_false, Bool.or_false]

theorem signOf_of_isDigit (h : isDigit c = true) (s : List UInt8) :
    signOf (c :: s) = (false, c :: s) := by
  rw [signOf, if_neg (ne_of_isDigit h (by decide)), if_neg (ne_of_isDigit h (by decide))]

theorem strtoul_digits {ds rest : List UInt8} (hne : ds ≠ []) (hds : ∀ c ∈ ds, isDigit c = true)
    (hrs : ∀ c ∈ rest.head?, isDigit c = false) :
    strtoul (ds ++ rest) = (strtoulDigits ds, rest) := by
  obtain ⟨d, es, rfl⟩ := exists_cons_of_ne_nil hne
  have hd : isDigit d = true := hds d mem_cons_self
  have hsp : ((d :: es) ++ rest).dropWhile isSpace = (d :: es) ++ rest :=
    dropWhile_cons_of_neg (by rw [isSpace_of_isDigit hd]; decide)
  have ht : ((d :: es) ++ rest).takeWhile isDigit = d :: es := takeWhile_digits_append hds hrs
  have hdr : ((d :: es) ++ rest).dropWhile isDigit = rest := by
    rw [dropWhile_append_of_pos hds]
    cases rest with
    | nil => rfl
    | cons c rest => exact dropWhile_cons_of_neg (by rw [hrs c rfl]; decide)
  have hmi : (if ulongMax < decimalValue (d :: es) then ulongMax else decimalValue (d :: es)) =
      strtoulDigits (d :: es) := by
    rw [strtoulDigits, min_def]
    split_ifs <;> omega
  unfold strtoul
  simp only [hsp]
  rw [cons_append, signOf_of_isDigit hd, ← cons_append]
  simp only [ht, hdr, if_neg (cons_ne_nil d es), Bool.false_eq_true, if_false, hmi]

def EndsNumber (c : UInt8) : Prop :=
  isDigit c = false ∧ isSpace c = false ∧ c ≠ 45 ∧ c ≠ 43

instance (c : UInt8) : Decidable (EndsNumber c) := inferInstanceAs (Decidable (_ ∧ _))

theorem dropWhile_append_cons {p : UInt8 → Bool} (hc : p c = false)
    (t r : List UInt8) : (t ++ c :: r).dropWhile p = t.dropWhile p ++ c :: r := by
  induction t with
  | nil => exact dropWhile_cons_of_neg (by rw [hc]; decide)
  | cons d t ih =>
    rw [cons_append, dropWhile_cons, dropWhile_cons]
    split_ifs
    · exact ih
    · rfl

theorem takeWhile_append_cons {p : UInt8 → Bool} (hc : p c = false)
    (t r : List UInt8) : (t ++ c :: r).takeWhile p = t.takeWhile p := by
  induction t with
  | nil => exact takeWhile_cons_of_neg (by rw [hc]; decide)
  | cons d t ih =>
    rw [cons_append, takeWhile_cons, takeWhile_cons]
    split_ifs
    · rw [ih]
    · rfl

theorem signOf_append_cons (hc : EndsNumber c) (t r : List UInt8) :
    signOf (t ++ c :: r) = ((signOf t).1, (signOf t).2 ++ c :: r) := by
  cases t with
  | nil =>
    have hno : signOf (c :: r) = (false, c :: r) := by
      rw [signOf, if_neg hc.2.2.1, if_neg hc.2.2.2]
    exact hno
  | cons d t =>
    rw [cons_append, signOf, signOf]
    split_ifs <;> rfl

theorem strtoul_append_cons (hc : EndsNumber c) (t r : List UInt8) :
    strtoul (t ++ c :: r) = ((strtoul t).1, (strtoul t).2 ++ c :: r) := by
  unfold strtoul
  simp only [dropWhile_append_cons hc.2.1, signOf_append_cons hc, takeWhile_append_cons hc.1,
    dropWhile_append_cons hc.1]
  split_ifs <;> rfl

theorem strtoul_suffix (t : List UInt8) : (strtoul t).2 <:+ t := by
  have hsi : ∀ u : List UInt8, (signOf u).2 <:+ u := by
    intro u
    cases u with
    | nil => exact suffix_refl _
    | cons d u =>
      rw [signOf]
      split_ifs
      · exact suffix_cons d u
      · exact suffix_cons d u
      · exact suffix_refl _
  unfold strtoul
  simp only
  split_ifs
  · exact suffix_refl _
  all_goals
    exact (dropWhile_suffix _).trans ((hsi _).trans (dropWhile_suffix _))

theorem strtoulDigits_decimal {n : ℕ} (h : n ≤ ulongMax) : strtoulDigits (decimal n) = n := by
  rw [strtoulDigits, decimalValue_decimal, min_eq_left h]

end Chanos.Lib

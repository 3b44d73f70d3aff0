import Chanos.Dhcp.Message
import Chanos.Lib.Tlv

/-!
# Walking over the options of a message

The functions of `npd_dhcp_snp_options.c` that walk over the options besides
`npd_dhcp_snp_get_option`. `npd_dhcp_snp_check_opt82` is the search with another return value.
-/

namespace Chanos.Dhcp

open Lib Database List Tlv OptionRound Nat UInt8

def optionLen : ℕ := 1500

def dhcpOption82 : UInt8 := 0x52

inductive OptReturn
  | ok
  | error
  | pktDrop
  deriving DecidableEq

/-! ## The functions -/

def npdDhcpSnpCheckOpt82 (packet : DhcpMessage) (code : UInt8) : Bool :=
  (npdDhcpSnpGetOption packet code).isSome

def endOptionFrom (optionptr : List UInt8) (i : ℕ) : Except Fault ℕ :=
  match _hbyte : optionptr[i]? with
  | none => .error .outOfBounds
  | some c =>
    if c = dhcpEnd then .ok i
    else if c = dhcpPadding then endOptionFrom optionptr (i + 1)
    else
      match optionptr[i + 1]? with
      | none => .error .outOfBounds
      | some len => endOptionFrom optionptr (i + len.toNat + 2)
termination_by optionptr.length - i
decreasing_by
  all_goals
    have hi := (List.getElem?_eq_some_iff.mp _hbyte).1
    omega

def npdDhcpSnpEndOption (optionptr : List UInt8) : Except Fault ℕ := endOptionFrom optionptr 0

def memmove (mem : List UInt8) (dst src n : ℕ) : Except Fault (List UInt8) :=
  if dst + n ≤ mem.length ∧ src + n ≤ mem.length then
    .ok (mem.take dst ++ (mem.drop src).take n ++ mem.drop (dst + n))
  else .error .outOfBounds

def removeOpt82From (code : UInt8) (opt_len : ℕ) (mem : List UInt8) (i : ℕ) :
    Except Fault (OptReturn × List UInt8 × ℕ) :=
  if _h : optionLen ≤ i then .ok (.error, mem, 0)
  else
    match mem[i]? with
    | none => .error .outOfBounds
    | some c =>
      if (c ≠ dhcpPadding ∧ c ≠ dhcpEnd) ∧ optionLen ≤ i + 2 then .ok (.error, mem, 0)
      else if c = dhcpPadding then removeOpt82From code opt_len mem (i + 1)
      else if c = dhcpEnd then .ok (.ok, mem, 0)
      else
        match mem[i + 1]? with
        | none => .error .outOfBounds
        | some len =>
          if c = code then
            if optionLen ≤ i + 1 + len.toNat then .ok (.error, mem, 0)
            else do
              -- The number of bytes is an `unsigned int`.
              let n := (((opt_len : ℤ) - i - (len.toNat + 2) + 1) % 2 ^ 32).toNat
              let moved ← memmove mem i (i + len.toNat + 2) n
              .ok (.ok, moved, len.toNat + 2)
          else removeOpt82From code opt_len mem (i + len.toNat + 2)
termination_by optionLen - i

def npdDhcpSnpRemoveOpt82 (mem : List UInt8) (code : UInt8) (opt_len : ℕ) :
    Except Fault (OptReturn × List UInt8 × ℕ) := removeOpt82From code opt_len mem 0

def npdDhcpSnpAttachOpt82String (mem string : List UInt8) :
    Except Fault (OptReturn × List UInt8) := do
  let stop ← npdDhcpSnpEndOption mem
  let len := (string.getD 1 0).toNat
  if optionLen ≤ stop + len + 2 + 1 then .ok (.error, mem)
  else .ok (.ok, mem.take stop ++ string.take (len + 2) ++ dhcpEnd :: mem.drop (stop + len + 3))

/-! ## The end of the options -/

abbrev DhcpOption : Type := Tlv dhcpPadding dhcpEnd

theorem dhcpPadding_ne_dhcpEnd : dhcpPadding ≠ dhcpEnd := by decide

section

variable {optionptr rest : List UInt8} {i : ℕ} {c len : UInt8} {items : List DhcpOption}
  {mem : List UInt8} {data : List UInt8} {hdata : data.length < 256} {hpad : c ≠ dhcpPadding}
  {hend : c ≠ dhcpEnd}

theorem endOptionFrom_eq (optionptr : List UInt8) (i : ℕ) :
    endOptionFrom optionptr i =
      match optionptr[i]? with
      | none => .error .outOfBounds
      | some c =>
        if c = dhcpEnd then .ok i
        else if c = dhcpPadding then endOptionFrom optionptr (i + 1)
        else
          match optionptr[i + 1]? with
          | none => .error .outOfBounds
          | some len => endOptionFrom optionptr (i + len.toNat + 2) := by
  rw [endOptionFrom]
  split <;> rename_i h <;> rw [h]

theorem getElem?_of_drop {l k : List UInt8} (h : l.drop i = k) (j : ℕ) : l[i + j]? = k[j]? := by
  rw [← h, getElem?_drop]

theorem closed_nil (h : Closed ([] : List DhcpOption) rest (optionptr.drop i)) :
    optionptr[i]? = some dhcpEnd := getElem?_of_drop h 0

theorem closed_pad (h : Closed (.pad :: items) rest (optionptr.drop i)) :
    optionptr[i]? = some dhcpPadding ∧ Closed items rest (optionptr.drop (i + 1)) ∧
      optionptr.take (i + 1) = optionptr.take i ++ [dhcpPadding] := by
  refine ⟨getElem?_of_drop h 0, ?_, ?_⟩
  · rw [← drop_drop, h]
    rfl
  · rw [take_add, h]
    rfl

theorem closed_opt (h : Closed (.opt c data hpad hend hdata :: items) rest (optionptr.drop i)) :
    optionptr[i]? = some c ∧ optionptr[i + 1]? = some (ofNat data.length) ∧
      Closed items rest (optionptr.drop (i + data.length + 2)) ∧
      optionptr.take (i + data.length + 2) =
        optionptr.take i ++ c :: ofNat data.length :: data := by
  have hb : optionptr.drop i =
      c :: ofNat data.length :: (data ++ (encode items ++ dhcpEnd :: rest)) := by
    rw [h, encode_cons, bytes, cons_append, cons_append, append_assoc]
    rfl
  refine ⟨getElem?_of_drop hb 0, getElem?_of_drop hb 1, ?_, ?_⟩
  · rw [add_assoc, ← drop_drop, hb, drop_succ_cons, drop_succ_cons,
      drop_left]
    rfl
  · rw [add_assoc, take_add, hb, take_succ_cons, take_succ_cons, take_left]

section

variable (items : List DhcpOption)

theorem length_encode_opt (hpad : c ≠ dhcpPadding)
    (hend : c ≠ dhcpEnd) (hdata : data.length < 256) :
    (encode (.opt c data hpad hend hdata :: items)).length =
      data.length + 2 + (encode items).length := by
  rw [encode_cons, bytes, length_append, length_cons, length_cons]

theorem length_encode_pad :
    (encode (.pad :: items)).length = 1 + (encode items).length := by
  rw [encode_cons, bytes, length_append, length_singleton]

theorem endOptionFrom_of_closed (h : Closed items rest (optionptr.drop i)) :
    endOptionFrom optionptr i = .ok (i + (encode items).length) := by
  induction items generalizing i with
  | nil =>
    rw [endOptionFrom_eq, closed_nil h]
    simp
  | cons a items ih =>
    rcases a with _ | ⟨code, data, hpad, hend, hdata⟩
    · obtain ⟨hb, hn, -⟩ := closed_pad h
      rw [endOptionFrom_eq, hb]
      simp only [if_neg dhcpPadding_ne_dhcpEnd, if_true]
      rw [ih hn, length_encode_pad, add_assoc]
    · obtain ⟨hb, hlen, hn, -⟩ := closed_opt h
      rw [endOptionFrom_eq, hb]
      simp only [if_neg hpad, if_neg hend, hlen, toNat_ofNat_length hdata]
      rw [ih hn, length_encode_opt, ← add_assoc, ← add_assoc]

end

theorem drop_eq_cons {l : List UInt8} (h : l[i]? = some c) : l.drop i = c :: l.drop (i + 1) := by
  obtain ⟨hi, rfl⟩ := List.getElem?_eq_some_iff.mp h
  exact drop_eq_getElem_cons hi

theorem exists_closed_of_endOptionFrom {stop : ℕ} (h : endOptionFrom optionptr i = .ok stop) :
    ∃ items : List DhcpOption, ∃ rest, Closed items rest (optionptr.drop i) := by
  fun_induction endOptionFrom optionptr i with
  | case1 i hno | case4 i c hb hend hpad hno => simp at h
  | case2 i hb => exact ⟨[], optionptr.drop (i + 1), drop_eq_cons hb⟩
  | case3 i hb hend ih =>
    obtain ⟨items, rest, hc⟩ := ih h
    refine ⟨.pad :: items, rest, ?_⟩
    rw [Closed, drop_eq_cons hb, hc]
    rfl
  | case5 i c hb hend hpad len hlen ih =>
    obtain ⟨items, rest, hc⟩ := ih h
    -- The next option lies in the block, so the data of this one does.
    have hlt : i + len.toNat + 2 < optionptr.length := by
      by_contra hge
      rw [drop_of_length_le (by omega)] at hc
      simp [Closed] at hc
    have hdata : ((optionptr.drop (i + 2)).take len.toNat).length = len.toNat := by
      rw [length_take, length_drop]
      omega
    have hsh : ((optionptr.drop (i + 2)).take len.toNat).length < 256 := by
      rw [hdata]
      exact len.toNat_lt
    refine ⟨.opt c ((optionptr.drop (i + 2)).take len.toNat) hpad hend hsh :: items, rest, ?_⟩
    have hrs : (optionptr.drop (i + 2)).drop len.toNat = encode items ++ dhcpEnd :: rest := by
      rw [drop_drop, show i + 2 + len.toNat = i + len.toNat + 2 by omega, hc]
    calc optionptr.drop i = c :: len :: optionptr.drop (i + 2) := by
          rw [drop_eq_cons hb, drop_eq_cons hlen]
      _ = c :: len :: ((optionptr.drop (i + 2)).take len.toNat ++
            (encode items ++ dhcpEnd :: rest)) := by
          rw [← hrs, take_append_drop]
      _ = encode (.opt c ((optionptr.drop (i + 2)).take len.toNat) hpad hend hsh :: items) ++
            dhcpEnd :: rest := by
          rw [encode_cons, bytes, hdata, UInt8.ofNat_toNat, cons_append, cons_append, append_assoc]
          rfl

theorem endOption_eq_ok_iff {stop : ℕ} :
    npdDhcpSnpEndOption optionptr = .ok stop ↔
      ∃ items : List DhcpOption, ∃ rest, Closed items rest optionptr ∧
        stop = (encode items).length := by
  constructor
  · intro h
    obtain ⟨items, rest, hc⟩ := exists_closed_of_endOptionFrom h
    have hsp := endOptionFrom_of_closed items hc
    rw [zero_add] at hsp
    exact ⟨items, rest, hc, Except.ok.inj (h.symm.trans hsp)⟩
  · rintro ⟨items, rest, hc, rfl⟩
    have hsp := endOptionFrom_of_closed (i := 0) items hc
    rw [zero_add] at hsp
    exact hsp

/-! ## Removing an option -/

theorem memmove_ok {dst src n : ℕ} (hd : dst ≤ src) (hsr : src + n ≤ mem.length) :
    memmove mem dst src n = .ok (mem.take dst ++ (mem.drop src).take n ++ mem.drop (dst + n)) :=
  if_pos ⟨by omega, hsr⟩

def reclose (mem : List UInt8) (i : ℕ) (items : List DhcpOption) : List UInt8 :=
  mem.take i ++ encode items ++ dhcpEnd :: mem.drop (i + (encode items).length + 1)

theorem reclose_self (items : List DhcpOption)
    (h : Closed items rest (mem.drop i)) : reclose mem i items = mem := by
  have hrs : mem.drop (i + (encode items).length + 1) = rest := by
    rw [add_assoc, ← drop_drop, h, ← drop_drop, drop_left, drop_succ_cons, drop_zero]
  rw [reclose, hrs, append_assoc, ← h, take_append_drop]

theorem closed_reclose (mem : List UInt8) (items : List DhcpOption) :
    Closed items (mem.drop (0 + (encode items).length + 1)) (reclose mem 0 items) := by
  rw [Closed, reclose, take_zero, nil_append]

theorem length_reclose (h : (encode items).length < mem.length) :
    (reclose mem 0 items).length = mem.length := by
  rw [reclose, take_zero, nil_append, length_append, length_cons, length_drop]
  omega

theorem reclose_append (h : (encode items).length < mem.length) (t : List UInt8) :
    reclose (mem ++ t) 0 items = reclose mem 0 items ++ t := by
  rw [reclose, reclose, drop_append_of_le_length (by omega), take_zero, take_zero,
    append_assoc, append_assoc, append_assoc, cons_append]

theorem reclose_pad (items : List DhcpOption) (h : mem.take (i + 1) = mem.take i ++ [dhcpPadding]) :
    reclose mem (i + 1) items = reclose mem i (.pad :: items) := by
  rw [reclose, reclose, h, length_encode_pad, encode_cons, bytes, ← add_assoc,
    append_assoc (mem.take i)]

theorem reclose_opt (items : List DhcpOption)
    (hpad : c ≠ dhcpPadding) (hend : c ≠ dhcpEnd) (hdata : data.length < 256)
    (h : mem.take (i + data.length + 2) = mem.take i ++ c :: ofNat data.length :: data) :
    reclose mem (i + data.length + 2) items =
      reclose mem i (.opt c data hpad hend hdata :: items) := by
  rw [reclose, reclose, h, length_encode_opt, encode_cons, bytes, ← add_assoc,
    ← add_assoc, append_assoc (mem.take i)]

theorem removeOpt82From_of_closed (code : UInt8) {opt_len : ℕ}
    (items : List DhcpOption) (h : Closed items rest (mem.drop i))
    (hsp : opt_len = i + (encode items).length) (hf : opt_len < optionLen) :
    removeOpt82From code opt_len mem i = .ok (.ok,
      reclose mem i (items.eraseP (hasCode code)),
      (encode items).length - (encode (items.eraseP (hasCode code))).length) := by
  induction items generalizing i with
  | nil =>
    rw [removeOpt82From, dif_neg (by omega), closed_nil h]
    simp only [ne_eq, not_true_eq_false, and_false, false_and, if_false,
      if_neg dhcpPadding_ne_dhcpEnd.symm, if_true, eraseP_nil, Nat.sub_self]
    rw [reclose_self [] h]
  | cons a items ih =>
    rcases a with _ | ⟨c, data, hpad, hend, hdata⟩
    · obtain ⟨hb, hnx, ht⟩ := closed_pad h
      rw [length_encode_pad] at hsp
      rw [removeOpt82From, dif_neg (by omega), hb]
      simp only [ne_eq, not_true_eq_false, false_and, if_false, if_true]
      rw [ih hnx (by omega), eraseP_cons_of_neg (by simp [hasCode]),
        reclose_pad _ ht, length_encode_pad, length_encode_pad, Nat.add_sub_add_left]
    · obtain ⟨hb, hlen, hnx, ht⟩ := closed_opt h
      rw [length_encode_opt] at hsp
      rw [removeOpt82From, dif_neg (by omega), hb]
      have hin : ¬((c ≠ dhcpPadding ∧ c ≠ dhcpEnd) ∧ optionLen ≤ i + 2) := by omega
      simp only [if_neg hin, if_neg hpad, if_neg hend, hlen, toNat_ofNat_length hdata]
      by_cases hc : c = code
      · -- The bytes that move are the options after this one and the closing byte.
        have hn : (((opt_len : ℤ) - i - (data.length + 2) + 1) % 2 ^ 32).toNat =
            (encode items).length + 1 := by
          have hsm : opt_len < 1500 := hf
          omega
        have hmv : (mem.drop (i + data.length + 2)).take ((encode items).length + 1) =
            encode items ++ [dhcpEnd] := by
          rw [hnx, take_length_add_append, take_succ_cons, take_zero]
        have hme : i + data.length + 2 + ((encode items).length + 1) ≤ mem.length := by
          have hln := congrArg length hnx
          rw [length_drop, length_append, length_cons] at hln
          omega
        rw [if_pos hc, if_neg (by omega), hn, memmove_ok (by omega) hme, hmv,
          eraseP_cons_of_pos (by simp [hasCode, hc]), length_encode_opt,
          Nat.add_sub_cancel]
        rw [reclose, append_assoc, append_assoc, append_assoc, singleton_append, Nat.add_assoc]
        rfl
      · rw [if_neg hc, ih hnx (by omega),
          eraseP_cons_of_neg (by simp [hasCode, hc]), reclose_opt _ hpad hend hdata ht,
          length_encode_opt, length_encode_opt, Nat.add_sub_add_left]

theorem removeOpt82_of_closed (code : UInt8) (h : Closed items rest mem)
    (hf : (encode items).length < optionLen) :
    npdDhcpSnpRemoveOpt82 mem code (encode items).length = .ok (.ok,
      reclose mem 0 (items.eraseP (hasCode code)),
      (encode items).length - (encode (items.eraseP (hasCode code))).length) :=
  removeOpt82From_of_closed code items h (zero_add _).symm hf

/-! ## Attaching an option -/

theorem attachOpt82String_of_closed (h : Closed items rest mem) (hpad : c ≠ dhcpPadding)
    (hend : c ≠ dhcpEnd) (hdata : data.length < 256) :
    npdDhcpSnpAttachOpt82String mem (c :: ofNat data.length :: data) =
      if optionLen ≤ (encode items).length + data.length + 3 then .ok (.error, mem)
      else .ok (.ok, reclose mem 0 (items ++ [.opt c data hpad hend hdata])) := by
  have hsp := endOption_eq_ok_iff.mpr ⟨items, rest, h, rfl⟩
  have ht : mem.take (encode items).length = encode items := by rw [h, take_left]
  have hsr : (c :: ofNat data.length :: data).take (data.length + 2) =
      c :: ofNat data.length :: data := by
    rw [take_succ_cons, take_succ_cons, take_length]
  have hln : 0 + (encode (items ++ [.opt c data hpad hend hdata])).length + 1 =
      (encode items).length + data.length + 3 := by
    rw [encode_append, length_append, length_encode_opt, encode_nil, length_nil]
    omega
  rw [npdDhcpSnpAttachOpt82String, hsp]
  simp only [bind, Except.bind, getD_cons_succ, getD_cons_zero, toNat_ofNat_length hdata]
  rw [ht, hsr, reclose, hln, take_zero, nil_append, encode_append,
    encode_cons, encode_nil, append_nil]
  rfl

/-! ## The search -/

variable {packet packet' : DhcpMessage} {curr : OptionField} (code overload : UInt8)

theorem optionRound_pad (h : (curr.bytes packet)[i]? = some dhcpPadding) :
    optionRound packet code curr i overload = .goOn curr (i + 1) overload := by
  rw [optionRound, drop_eq_cons h]
  simp

theorem optionRound_stop (h : (curr.bytes packet)[i]? = some dhcpEnd) :
    optionRound packet code curr i overload =
      (curr.next overload).elim (.done none) (.goOn · 0 overload) := by
  rw [optionRound, drop_eq_cons h]
  cases curr.next overload <;> rfl

theorem closed_opt_next
    (h : Closed (.opt c data hpad hend hdata :: items) rest (optionptr.drop i)) :
    optionptr[i + 2]? = some ((data ++ encode items ++ [dhcpEnd]).head (by simp)) := by
  have hb : optionptr.drop i =
      c :: ofNat data.length :: ((data ++ encode items ++ [dhcpEnd]) ++ rest) := by
    rw [h, encode_cons, bytes]
    simp
  rw [getElem?_of_drop hb 2]
  simp only [getElem?_cons_succ]
  rw [getElem?_append_left (by simp), head_eq_getElem, ← getElem?_eq_getElem]

theorem optionRound_opt
    (h : Closed (.opt c data hpad hend hdata :: items) rest ((curr.bytes packet).drop i)) :
    optionRound packet code curr i overload =
      if c = code then .done (some (curr.base + i + 2))
      else .goOn curr (i + data.length + 2)
        (if c = dhcpOptionOver then (data ++ encode items ++ [dhcpEnd]).head (by simp)
          else overload) := by
  obtain ⟨hb, hlen, hn, -⟩ := closed_opt h
  -- The closing byte is in the field, so the option is.
  have hin : ¬curr.length ≤ i + 1 + data.length := by
    have hln := congrArg length hn
    rw [length_drop, curr.length_bytes, length_append, length_cons] at hln
    omega
  rw [optionRound, drop_eq_cons hb, drop_eq_cons hlen, drop_eq_cons (closed_opt_next h)]
  simp only [if_neg hpad, if_neg hend, toNat_ofNat_length hdata, if_neg hin]
  split_ifs <;> rfl

theorem exists_getOptionLoop_of_closed (items : List DhcpOption) {fuel : ℕ}
    (h : Closed items rest ((curr.bytes packet).drop i))
    (hcd : items.any (hasCode code) = true) (hf : curr.rounds i ≤ fuel) :
    ∃ off, getOptionLoop packet code fuel curr i overload = some (some off) := by
  induction items generalizing i overload fuel with
  | nil => simp at hcd
  | cons a items ih =>
    obtain ⟨fuel, rfl⟩ : ∃ n, fuel = n + 1 :=
      exists_eq_succ_of_ne_zero (by cases curr <;> simp [OptionField.rounds] at hf <;> omega)
    rcases a with _ | ⟨c, data, hpad, hend, hdata⟩
    · obtain ⟨hb, hn, -⟩ := closed_pad h
      have hr := optionRound_pad code overload hb
      have hls := optionRound_goOn hr
      rw [getOptionLoop, hr]
      exact ih _ hn (by simpa [hasCode] using hcd) (by omega)
    · obtain ⟨-, -, hn, -⟩ := closed_opt h
      have hr := optionRound_opt code overload h
      by_cases hc : c = code
      · rw [if_pos hc] at hr
        rw [getOptionLoop, hr]
        exact ⟨_, rfl⟩
      · rw [if_neg hc] at hr
        have hls := optionRound_goOn hr
        rw [getOptionLoop, hr]
        exact ih _ hn (by simpa [hasCode, hc] using hcd) (by omega)

theorem checkOpt82_of_closed (h : Closed items rest (OptionField.option.bytes packet))
    (hc : items.any (hasCode code) = true) : npdDhcpSnpCheckOpt82 packet code = true := by
  obtain ⟨off, ho⟩ := exists_getOptionLoop_of_closed (i := 0) code 0 items h hc
    (OptionField.option.rounds 0).le_refl
  rw [npdDhcpSnpCheckOpt82, npdDhcpSnpGetOption, ho]
  rfl

/-! ## What the search depends on -/

theorem OptionField.next_ne_option {overload : UInt8} {curr' : OptionField}
    (h : curr.next overload = some curr') : curr' ≠ .option := by
  cases curr with
  | option | file =>
    obtain ⟨-, hn⟩ := Option.ite_none_right_eq_some.mp h
    rw [← Option.some.inj hn]
    decide
  | sname => cases h

open OptionField

theorem optionRound_goOn_field {code overload overload' : UInt8} {curr' : OptionField} {i' : ℕ}
    (h : optionRound packet code curr i overload = .goOn curr' i' overload') :
    curr' = curr ∨ curr' ≠ .option := by
  have hsa : ∀ {j o}, goOn curr j o = .goOn curr' i' overload' →
      curr' = curr ∨ curr' ≠ .option := fun heq => .inl (goOn.inj heq).1.symm
  unfold optionRound at h
  split at h
  · simp at h
  split at h
  · exact hsa h
  split at h
  · split at h
    · next next hn =>
      rw [← (goOn.inj h).1]
      exact .inr (next_ne_option hn)
    · simp at h
  · split at h
    · split_ifs at h
      all_goals exact hsa h
    · simp at h

def SameOptions (packet packet' : DhcpMessage) (i : ℕ) : Prop :=
  ∃ items : List DhcpOption, ∃ rest rest',
    Closed items rest ((option.bytes packet).drop i) ∧
      Closed items rest' ((option.bytes packet').drop i)

theorem optionRound_congr (h : SameOptions packet packet' i) :
    optionRound packet code .option i overload = optionRound packet' code .option i overload ∧
      ∀ i' overload', optionRound packet code .option i overload = .goOn .option i' overload' →
        SameOptions packet packet' i' := by
  obtain ⟨items, rest, rest', hc, hc'⟩ := h
  cases items with
  | nil =>
    rw [optionRound_stop _ _ (closed_nil hc), optionRound_stop _ _ (closed_nil hc')]
    refine ⟨rfl, fun i' overload' hg => ?_⟩
    cases hn : option.next overload with rw [hn] at hg
    | none => simp at hg
    | some next => exact absurd (goOn.inj hg).1 (next_ne_option hn)
  | cons a items =>
    rcases a with _ | ⟨c, data, hpad, hend, hdata⟩
    · obtain ⟨hb, ha, -⟩ := closed_pad hc
      obtain ⟨hb', ha', -⟩ := closed_pad hc'
      rw [optionRound_pad _ _ hb, optionRound_pad _ _ hb']
      refine ⟨rfl, fun i' overload' hg => ?_⟩
      cases hg
      exact ⟨items, rest, rest', ha, ha'⟩
    · rw [optionRound_opt _ _ hc, optionRound_opt _ _ hc']
      refine ⟨rfl, fun i' overload' hg => ?_⟩
      split_ifs at hg <;>
      · cases hg
        exact ⟨items, rest, rest', (closed_opt hc).2.2.1, (closed_opt hc').2.2.1⟩

section

variable (hfile : file.bytes packet = file.bytes packet')
  (hsname : sname.bytes packet = sname.bytes packet')

include hfile hsname

theorem getOptionLoop_congr (hc : curr = .option → SameOptions packet packet' i) (fuel : ℕ) :
    getOptionLoop packet code fuel curr i overload =
      getOptionLoop packet' code fuel curr i overload := by
  induction fuel generalizing curr i overload with
  | zero => rfl
  | succ fuel ih =>
    have hst : optionRound packet code curr i overload =
          optionRound packet' code curr i overload ∧
        ∀ curr' i' overload', optionRound packet code curr i overload =
          .goOn curr' i' overload' → curr' = .option → SameOptions packet packet' i' := by
      by_cases ho : curr = .option
      · subst ho
        obtain ⟨hr, hsm⟩ := optionRound_congr code overload (hc rfl)
        exact ⟨hr, fun curr' i' overload' hg hc' => hsm i' overload' (hc' ▸ hg)⟩
      · have hb : curr.bytes packet = curr.bytes packet' := by
          cases curr with
          | option => exact absurd rfl ho
          | file => exact hfile
          | sname => exact hsname
        refine ⟨by rw [optionRound, optionRound, hb], fun curr' i' overload' hg => ?_⟩
        rcases optionRound_goOn_field hg with rfl | hne
        · exact fun hc' => absurd hc' ho
        · exact fun hc' => absurd hc' hne
    rw [getOptionLoop, getOptionLoop, ← hst.1]
    cases hg : optionRound packet code curr i overload with
    | done found => rfl
    | goOn curr' i' overload' => exact ih _ (hst.2 _ _ _ hg)

end

end

end Chanos.Dhcp

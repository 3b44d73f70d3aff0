import Chanos.Netif.Name

/-!
# Reading the name of a port

The name of a port is written as `1/2/3`, with a module as a fourth number and a sub-port behind a
dot. `strtoul` reads a number, and the character behind it says whether there is another one, so
some texts are read as a port that is not written in them (`portName_iff`).
-/

namespace Chanos.Netif

open Lib List Option Nat EthIf
variable {str : List UInt8} {cs : List UInt8} {sub : Bool} {sys : System} {c : UInt8}

inductive Outcome (α : Type)
  | ret (a : α)
  | overrun
  | endless
  deriving DecidableEq

/-- A system: its build, whether it is a box, the number of the unit, and whether units are
cascaded. -/
structure System where
  build : Build
  box : Bool
  local_unitno : ℤ
  cascade : Bool

def toChar (v : ℤ) : ℤ := v.bmod 256

def AcceptsPort (k : NetifConfig) (chassisno slotno moduleno portno subportno : ℤ) : Prop :=
  (0 ≤ chassisno ∧ chassisno ≤ k.max_chassis_count) ∧
    (0 ≤ slotno ∧ slotno ≤ k.max_chassis_slot_count) ∧
    (0 ≤ moduleno ∧ moduleno ≤ k.max_slot_subboard_count) ∧
    (0 < portno ∧ portno ≤ k.max_ethport_per_board) ∧
    0 < subportno ∧ subportno ≤ k.max_subport_per_ethport

instance (k : NetifConfig) (c s m p q : ℤ) : Decidable (AcceptsPort k c s m p q) :=
  inferInstanceAs (Decidable (_ ∧ _))

def portIndex (box : Bool) (chassisno slotno moduleno portno subportno : ℤ) : UInt32 :=
  if box then ethIfindex 0 (chassisno - 1) slotno (portno - 1) (subportno - 1)
  else ethIfindex (chassisno - 1) (slotno - 1) moduleno (portno - 1) (subportno - 1)

def generateEthIndex (sys : System) (chassisno slotno moduleno portno subportno : ℤ) : UInt32 :=
  if AcceptsPort sys.build.config (toChar chassisno) (toChar slotno) (toChar moduleno)
      (toChar portno) (toChar subportno) then
    portIndex sys.box (toChar chassisno) (toChar slotno) (toChar moduleno) (toChar portno)
      (toChar subportno)
  else 0

/-! ## Reading the numbers -/

abbrev Fields : Type := Option (List ℕ × Bool)

def fieldLoop : ℕ → List UInt8 → List ℕ → Bool → Outcome Fields
  | 0, _, _, _ => .endless
  | fuel + 1, str_temp, ul_temp, have_subport =>
    if 5 ≤ ul_temp.length then .overrun
    else
      let read := strtoul str_temp
      match read.2 with
      | [] => .ret (some (ul_temp ++ [read.1], have_subport))
      | c :: rest =>
        if c = slash then
          if have_subport then .ret none
          else if 4 < ul_temp.length + 1 then .ret none
          else fieldLoop fuel rest (ul_temp ++ [read.1]) have_subport
        else if c = dot then
          if have_subport then .ret none
          else fieldLoop fuel rest (ul_temp ++ [read.1]) true
        else .ret none

def parseFields (str : List UInt8) : Outcome Fields := fieldLoop (str.length + 1) str [] false

structure PortFields (α : Type) where
  chassis : Option α
  slot : α
  module : Option α
  port : α
  subport : Option α

def assignFields {α : Type} : List α → Bool → Option (PortFields α)
  | [s, p], false => some ⟨none, s, none, p, none⟩
  | [s, p, q], true => some ⟨none, s, none, p, some q⟩
  | [c, s, p], false => some ⟨some c, s, none, p, none⟩
  | [c, s, p, q], true => some ⟨some c, s, none, p, some q⟩
  | [c, s, m, p], false => some ⟨some c, s, some m, p, none⟩
  | [c, s, m, p, q], true => some ⟨some c, s, some m, p, some q⟩
  | _, _ => none

def assignOldFields {α : Type} : List α → Bool → Option (PortFields α)
  | [s, p], false => some ⟨none, s, none, p, none⟩
  | [s, p, q], true => some ⟨none, s, none, p, some q⟩
  | [s, m, p], false => some ⟨none, s, some m, p, none⟩
  | [s, m, p, q], true => some ⟨none, s, some m, p, some q⟩
  | [c, s, m, p], false => some ⟨some c, s, some m, p, none⟩
  | [c, s, m, p, q], true => some ⟨some c, s, some m, p, some q⟩
  | _, _ => none

def indexOfFields (sys : System) (f : PortFields ℤ) : UInt32 :=
  let chassis := (f.chassis.map toChar).getD sys.local_unitno
  if f.chassis.isSome ∧ chassis ≠ sys.local_unitno ∧ sys.cascade = false then 0
  else
    generateEthIndex sys chassis (toChar f.slot) ((f.module.map toChar).getD 0) (toChar f.port)
      ((f.subport.map toChar).getD 1)

def parseStrToEthIndex (sys : System) (str : List UInt8) : Outcome UInt32 :=
  match parseFields str with
  | .ret (some (ul_temp, have_subport)) =>
    .ret (((assignFields (ul_temp.map Nat.cast) have_subport).map (indexOfFields sys)).getD 0)
  | .ret none => .ret 0
  | .overrun => .overrun
  | .endless => .endless

/-- `parse_chassis_slot_module_port_subport_no`: what is stored in the five bytes of the caller, or
`none` for the return value `-1`. -/
def parseChassisSlotModulePortSubportNo (str : List UInt8) :
    Outcome (Option (PortFields ℕ)) :=
  match parseFields str with
  | .ret (some (ul_temp, have_subport)) =>
    .ret ((assignOldFields ul_temp have_subport).map fun f =>
      ⟨some (f.chassis.getD 0 % 256), f.slot % 256, some (f.module.getD 0 % 256), f.port % 256,
        some (f.subport.getD 0 % 256)⟩)
  | .ret none => .ret none
  | .overrun => .overrun
  | .endless => .endless

/-! ## The pieces of a text -/

def isSeparator (c : UInt8) : Bool := c = slash || c = dot

def pieces (str : List UInt8) : List (List UInt8) := str.splitOnP isSeparator

def separators (str : List UInt8) : List UInt8 := str.filter isSeparator

variable (t : List UInt8)

def IsRead : Prop := (strtoul t).2 = []

instance (t : List UInt8) : Decidable (IsRead t) := inferInstanceAs (Decidable (_ = _))

def walk : List (List UInt8) → List UInt8 → List ℕ → Bool → Outcome Fields
  | [], _, _, _ => .ret none
  | t :: ts, seps, ul_temp, have_subport =>
    if 5 ≤ ul_temp.length then .overrun
    else if IsRead t then
      match seps with
      | [] => .ret (some (ul_temp ++ [(strtoul t).1], have_subport))
      | c :: cs =>
        if have_subport = true ∨ c = slash ∧ 4 < ul_temp.length + 1 then .ret none
        else walk ts cs (ul_temp ++ [(strtoul t).1]) (decide (c = dot))
    else .ret none

theorem endsNumber_of_isSeparator (h : isSeparator c = true) : EndsNumber c := by
  rw [isSeparator, Bool.or_eq_true, decide_eq_true_eq, decide_eq_true_eq] at h
  rcases h with rfl | rfl <;> decide

theorem pieces_cases (str : List UInt8) :
    (pieces str = [str] ∧ separators str = [] ∧ ∀ c ∈ str, isSeparator c = false) ∨
      ∃ t c r, str = t ++ c :: r ∧ isSeparator c = true ∧ (∀ d ∈ t, isSeparator d = false) ∧
        pieces str = t :: pieces r ∧ separators str = c :: separators r := by
  have hfil : ∀ t : List UInt8, (∀ c ∈ t, isSeparator c = false) → t.filter isSeparator = [] :=
    fun t ht => filter_eq_nil_iff.mpr fun d hd => by rw [ht d hd]; decide
  have hno : ∀ c ∈ str.takeWhile (!isSeparator ·), isSeparator c = false := fun c hc => by
    simpa using mem_takeWhile_imp hc
  have hsr := takeWhile_append_dropWhile (p := (!isSeparator ·)) (l := str)
  have hse := head?_dropWhile_not (!isSeparator ·) str
  generalize str.takeWhile (!isSeparator ·) = t at hno hsr
  generalize str.dropWhile (!isSeparator ·) = u at hse hsr
  subst hsr
  cases u with
  | nil =>
    rw [append_nil]
    exact .inl ⟨splitOnP_eq_singleton hno, hfil t hno, hno⟩
  | cons c r =>
    have hc : isSeparator c = true := by simpa using hse
    refine .inr ⟨t, c, r, rfl, hc, hno, ?_, ?_⟩
    · rw [pieces, splitOnP_append_cons_of_forall_mem hno c hc]
      rfl
    · rw [separators, filter_append, hfil t hno, nil_append, filter_cons_of_pos hc]
      rfl

theorem isSeparator_iff : isSeparator c = true ↔ c = slash ∨ c = dot := by
  rw [isSeparator, Bool.or_eq_true, decide_eq_true_eq, decide_eq_true_eq]

theorem not_separator_of_rest {d : UInt8} {rest : List UInt8}
    (hno : ∀ c ∈ t, isSeparator c = false) (hrs : (strtoul t).2 = d :: rest) :
    ¬IsRead t ∧ d ≠ slash ∧ d ≠ dot := by
  have hd := hno d ((strtoul_suffix t).subset (hrs ▸ mem_cons_self))
  refine ⟨fun h => cons_ne_nil d rest (hrs.symm.trans h), ?_, ?_⟩ <;>
  · rintro rfl
    cases hd

theorem fieldLoop_eq_walk {fuel : ℕ} (hf : str.length < fuel) (ul : List ℕ) (sub : Bool) :
    fieldLoop fuel str ul sub = walk (pieces str) (separators str) ul sub := by
  induction fuel generalizing str ul sub with
  | zero => exact absurd hf (not_lt_zero _)
  | succ fuel ih =>
    rw [fieldLoop]
    rcases pieces_cases str with ⟨hp, hs, hno⟩ | ⟨t, c, r, rfl, hc, hno, hp, hs⟩
    · -- there is one piece, and what is left of it is not a separator
      rw [hp, hs, walk]
      refine if_congr Iff.rfl rfl ?_
      dsimp only
      cases hrs : (strtoul str).2 with
      | nil => rw [if_pos (show IsRead str from hrs)]
      | cons d rest =>
        obtain ⟨hrd, hsl, hdo⟩ := not_separator_of_rest _ hno hrs
        rw [if_neg hrd]
        simp only [if_neg hsl, if_neg hdo]
    · rw [hp, hs, walk]
      refine if_congr Iff.rfl rfl ?_
      have hlen : r.length < fuel := by
        rw [length_append, length_cons] at hf
        omega
      simp only [strtoul_append_cons (endsNumber_of_isSeparator hc)]
      cases hrs : (strtoul t).2 with
      | nil =>
        rw [if_pos (show IsRead t from hrs), nil_append]
        simp only
        rcases isSeparator_iff.mp hc with rfl | rfl
        · cases sub with
          | true => simp
          | false =>
            by_cases hr : 4 < ul.length + 1
            · simp [hr]
            · simp only [hr, if_false, Bool.false_eq_true, and_false, or_false]
              exact ih hlen _ _
        · cases sub with
          | true => simp [show dot ≠ slash by decide]
          | false =>
            simp only [show ¬dot = slash by decide, if_false, if_true, Bool.false_eq_true,
              false_and, or_false, decide_true]
            exact ih hlen _ _
      | cons d rest =>
        obtain ⟨hrd, hsl, hdo⟩ := not_separator_of_rest _ hno hrs
        rw [if_neg hrd, cons_append]
        simp only [if_neg hsl, if_neg hdo]

theorem length_pieces (str : List UInt8) : (pieces str).length = (separators str).length + 1 := by
  induction hn : str.length using Nat.strong_induction_on generalizing str with
  | _ n ih =>
    rcases pieces_cases str with ⟨hp, hs, -⟩ | ⟨t, c, r, rfl, -, -, hp, hs⟩
    · rw [hp, hs]
      rfl
    · rw [length_append, length_cons] at hn
      rw [hp, hs, length_cons, length_cons, ih r.length (by omega) r rfl]

theorem parseFields_eq (str : List UInt8) :
    parseFields str = walk (pieces str) (separators str) [] false :=
  fieldLoop_eq_walk (lt_succ_self _) [] false

section

variable {t u : List UInt8} {ts us : List (List UInt8)} {cs : List UInt8} {ul : List ℕ}

section

variable (hul : ul.length < 5)
include hul

theorem walk_unread (ht : ¬IsRead t) (sub : Bool) : walk (t :: ts) cs ul sub = .ret none := by
  unfold walk
  rw [if_neg (not_le.mpr hul), if_neg ht]

theorem walk_last (ht : IsRead t) :
    walk [t] [] ul false = .ret (some (ul ++ [(strtoul t).1], false)) := by
  rw [walk, if_neg (not_le.mpr hul), if_pos ht]

theorem walk_slash (ht : IsRead t) :
    walk (t :: ts) (slash :: cs) ul false =
      if ul.length + 1 < 5 then walk ts cs (ul ++ [(strtoul t).1]) false else .ret none := by
  rw [walk, if_neg (not_le.mpr hul), if_pos ht, ← ite_not]
  refine if_congr ?_ rfl rfl
  rw [or_iff_right Bool.false_ne_true, and_iff_right rfl]
  omega

theorem walk_dot (ht : IsRead t) :
    walk (t :: u :: us) (dot :: cs) ul false =
      if ul.length + 1 < 5 then
        if IsRead u ∧ cs = [] then
          .ret (some (ul ++ [(strtoul t).1, (strtoul u).1], true))
        else .ret none
      else .overrun := by
  have hn : ¬((false : Bool) = true ∨ dot = slash ∧ 4 < ul.length + 1) := by
    rintro (h | ⟨h, -⟩)
    · exact Bool.false_ne_true h
    · cases h
  rw [walk, if_neg (not_le.mpr hul), if_pos ht, if_neg hn]
  unfold walk
  rw [length_append, ← ite_not]
  refine if_congr not_le ?_ rfl
  by_cases hu : IsRead u
  · rw [if_pos hu]
    cases cs with
    | nil =>
      rw [if_pos ⟨hu, rfl⟩, append_assoc]
      rfl
    | cons c cs =>
      rw [if_neg fun h => cons_ne_nil c cs h.2]
      exact if_pos (Or.inl rfl)
  · rw [if_neg hu, if_neg fun h => hu h.1]

end

end

def portSeparators (n : ℕ) (sub : Bool) : List UInt8 :=
  List.replicate n slash ++ if sub then [dot] else []

theorem exists_portSeparators_nil : (∃ n, [] = portSeparators n sub) ↔ sub = false := by
  cases sub <;> simp [portSeparators]

theorem exists_portSeparators_slash :
    (∃ n, slash :: cs = portSeparators n sub) ↔ ∃ n, cs = portSeparators n sub := by
  rw [← Nat.or_exists_add_one]
  cases sub <;> simp [portSeparators, replicate_succ, slash, dot]

theorem exists_portSeparators_dot :
    (∃ n, dot :: cs = portSeparators n sub) ↔ cs = [] ∧ sub = true := by
  rw [← Nat.or_exists_add_one]
  cases sub <;> simp [portSeparators, replicate_succ, slash, dot]

open Outcome

theorem ret_some_eq_iff {x y : List ℕ} {u v : Bool} :
    (ret (some (x, u)) : Outcome Fields) = .ret (some (y, v)) ↔ y = x ∧ v = u := by
  simp only [ret.injEq, some.injEq, Prod.mk.injEq, eq_comm]

/-- What is read when `n + 1` more numbers fit into the array. -/
theorem walk_spec {ts : List (List UInt8)} {ul : List ℕ} {n : ℕ} (hul : ul.length + n = 4)
    (hlen : ts.length = cs.length + 1) (hcs : ∀ c ∈ cs, isSeparator c = true) :
    walk ts cs ul false ≠ .endless ∧
      (walk ts cs ul false = .overrun ↔
        (∀ t ∈ ts.take (n + 1), IsRead t) ∧ portSeparators n true <+: cs) ∧
      ∀ fs sub, walk ts cs ul false = .ret (some (fs, sub)) ↔
        (∀ t ∈ ts, IsRead t) ∧ fs = ul ++ ts.map (fun t => (strtoul t).1) ∧
          (∃ m, cs = portSeparators m sub) ∧ cs.length ≤ n := by
  have he : ∀ {x : Fields}, (ret x : Outcome Fields) ≠ .endless := nofun
  have ho : ∀ {x : Fields}, ¬(ret x : Outcome Fields) = .overrun := nofun
  have hn : ∀ {x : List ℕ × Bool}, ¬(ret none : Outcome Fields) = .ret (some x) := nofun
  induction ts generalizing cs ul n with
  | nil => exact absurd hlen.symm (succ_ne_zero _)
  | cons t ts ih =>
    have hlt : ul.length < 5 := by omega
    by_cases ht : IsRead t
    swap
    · rw [walk_unread hlt ht]
      exact ⟨he, iff_of_false ho fun h => ht (h.1 t mem_cons_self),
        fun _ _ => iff_of_false hn fun h => ht (h.1 t mem_cons_self)⟩
    cases cs with
    | nil =>
      obtain rfl : ts = [] := eq_nil_of_length_eq_zero (succ.inj hlen)
      rw [walk_last hlt ht]
      refine ⟨he, iff_of_false ho fun h => ?_, fun fs sub => ?_⟩
      · exact append_ne_nil_of_right_ne_nil _ (cons_ne_nil dot []) (prefix_nil.mp h.2)
      · rw [ret_some_eq_iff, exists_portSeparators_nil, forall_mem_singleton, and_iff_right ht]
        exact and_congr_right fun _ => (and_iff_left n.zero_le).symm
    | cons c cs =>
      have hlen' : ts.length = cs.length + 1 := succ.inj hlen
      rcases isSeparator_iff.mp (hcs c mem_cons_self) with rfl | rfl
      · rw [walk_slash hlt ht]
        cases n with
        | zero =>
          rw [if_neg (by omega)]
          refine ⟨he, iff_of_false ho fun h => ?_, fun _ _ => iff_of_false hn fun h => ?_⟩
          · exact absurd (cons_prefix_cons.mp h.2).1 (by decide)
          · exact not_succ_le_zero _ h.2.2.2
        | succ n =>
          have happ : (ul ++ [(strtoul t).1]).length = ul.length + 1 := length_append
          have hc : portSeparators (n + 1) true = slash :: portSeparators n true := rfl
          obtain ⟨hend, hover, hret⟩ := @ih cs (ul ++ [(strtoul t).1]) n (by rw [happ]; omega) hlen'
            fun d hd => hcs d (mem_cons_of_mem _ hd)
          rw [if_pos (by omega), take_succ_cons, forall_mem_cons, and_iff_right ht, hc,
            cons_prefix_cons, and_iff_right rfl]
          refine ⟨hend, hover, fun fs sub => (hret fs sub).trans ?_⟩
          rw [exists_portSeparators_slash, forall_mem_cons, and_iff_right ht, append_assoc,
            length_cons, Nat.add_le_add_iff_right]
          rfl
      · obtain ⟨u, us, rfl⟩ := exists_cons_of_length_eq_add_one hlen'
        rw [walk_dot hlt ht]
        cases n with
        | zero =>
          rw [if_neg (by omega), take_succ_cons, take_zero, forall_mem_singleton, and_iff_right ht]
          refine ⟨nofun, iff_of_true rfl ⟨cs, rfl⟩, fun _ _ => iff_of_false nofun fun h => ?_⟩
          exact not_succ_le_zero _ h.2.2.2
        | succ n =>
          have hp : ¬portSeparators (n + 1) true <+: dot :: cs := fun h =>
            absurd (cons_prefix_cons.mp h).1 (by decide)
          rw [if_pos (by omega)]
          by_cases hla : IsRead u ∧ cs = []
          · obtain ⟨hu, rfl⟩ := hla
            obtain rfl : us = [] := eq_nil_of_length_eq_zero (succ.inj hlen')
            rw [if_pos ⟨hu, rfl⟩]
            refine ⟨he, iff_of_false ho fun h => hp h.2, fun fs sub => ?_⟩
            rw [ret_some_eq_iff, exists_portSeparators_dot, forall_mem_cons, and_iff_right ht,
              forall_mem_singleton, and_iff_right hu, and_iff_right rfl]
            exact and_congr_right fun _ => (and_iff_left (Nat.le_add_left 1 n)).symm
          · rw [if_neg hla]
            refine ⟨he, iff_of_false ho fun h => hp h.2, fun fs sub => iff_of_false hn fun h => hla ?_⟩
            rw [exists_portSeparators_dot] at h
            exact ⟨h.1 u (mem_cons_of_mem t mem_cons_self), h.2.2.1.1⟩

/-! ## What a text is read as -/

def FiveThenDot (str : List UInt8) : Prop :=
  (∀ t ∈ (pieces str).take 5, IsRead t) ∧ portSeparators 4 true <+: separators str

def Written (str : List UInt8) (sub : Bool) : Prop :=
  (∀ t ∈ pieces str, IsRead t) ∧ (∃ n, separators str = portSeparators n sub) ∧
    (separators str).length ≤ 4

theorem isSeparator_of_mem (h : c ∈ separators str) : isSeparator c = true :=
  (mem_filter.mp h).2

theorem parseFields_spec (str : List UInt8) :
    parseFields str ≠ .endless ∧ (parseFields str = .overrun ↔ FiveThenDot str) ∧
      ∀ fs sub, parseFields str = .ret (some (fs, sub)) ↔
        Written str sub ∧ fs = (pieces str).map fun t => (strtoul t).1 := by
  have hul : ([] : List ℕ).length + 4 = 4 := rfl
  obtain ⟨hend, hover, hret⟩ := walk_spec hul (length_pieces str) fun _ => isSeparator_of_mem
  rw [parseFields_eq]
  refine ⟨hend, hover, fun fs sub => (hret fs sub).trans ?_⟩
  rw [nil_append, Written]
  exact ⟨fun ⟨hrd, hf, hse, hle⟩ => ⟨⟨hrd, hse, hle⟩, hf⟩,
    fun ⟨⟨hrd, hse, hle⟩, hf⟩ => ⟨hrd, hf, hse, hle⟩⟩

theorem parseFields_eq_ret_iff {fs : List ℕ} :
    parseFields str = .ret (some (fs, sub)) ↔
      Written str sub ∧ fs = (pieces str).map fun t => (strtoul t).1 :=
  (parseFields_spec str).2.2 fs sub

def PortFields.map {α β : Type} (g : α → β) (f : PortFields α) : PortFields β :=
  ⟨f.chassis.map g, g f.slot, f.module.map g, g f.port, f.subport.map g⟩

theorem assignFields_map {α β : Type} (g : α → β) (l : List α) (sub : Bool) :
    assignFields (l.map g) sub = (assignFields l sub).map (PortFields.map g) := by
  rcases l with _ | ⟨a, _ | ⟨b, _ | ⟨c, _ | ⟨d, _ | ⟨e, _ | ⟨f, l⟩⟩⟩⟩⟩⟩ <;> cases sub <;> rfl

@[simp] theorem toChar_toChar (v : ℤ) : toChar (toChar v) = toChar v := Int.bmod_bmod

theorem toChar_of_lt {n : ℕ} (h : n < 128) : toChar (n : ℤ) = n := by
  unfold toChar
  rw [Int.bmod_def]
  omega

def residue : ℤ := toChar (strtoul t).1

def AcceptedFields (sys : System) (f : PortFields ℤ) : Prop :=
  (f.chassis = none ∨ f.chassis = some sys.local_unitno ∨ sys.cascade = true) ∧
    AcceptsPort sys.build.config (toChar (f.chassis.getD sys.local_unitno)) f.slot
      (f.module.getD 0) f.port (f.subport.getD 1)

theorem portIndex_ne_zero (box : Bool) (c s m p q : ℤ) : portIndex box c s m p q ≠ 0 := by
  have hne : ∀ {a b d e f : ℤ}, ethIfindex a b d e f ≠ 0 := by
    intro a b d e f h
    have ht := ifType_ethIfindex a b d e f
    rw [h] at ht
    cases ht
  unfold portIndex
  split_ifs
  · exact hne
  · exact hne

theorem indexOfFields_ne_zero_iff {f : PortFields ℤ} :
    indexOfFields sys f ≠ 0 ↔ AcceptedFields sys (f.map toChar) := by
  have hmo : toChar ((f.module.map toChar).getD 0) = (f.module.map toChar).getD 0 := by
    cases f.module with
    | none => rfl
    | some m => exact toChar_toChar m
  have hsu : toChar ((f.subport.map toChar).getD 1) = (f.subport.map toChar).getD 1 := by
    cases f.subport with
    | none => rfl
    | some q => exact toChar_toChar q
  -- the test of the unit is made for a unit that is written
  have hu : ¬(f.chassis.isSome ∧ (f.chassis.map toChar).getD sys.local_unitno ≠
      sys.local_unitno ∧ sys.cascade = false) ↔
      (f.chassis.map toChar = none ∨ f.chassis.map toChar = some sys.local_unitno ∨
        sys.cascade = true) := by
    cases f.chassis with
    | none => simp
    | some c => simp [imp_iff_not_or]
  rw [indexOfFields, AcceptedFields, PortFields.map, ← hu]
  split_ifs with hr
  · exact iff_of_false (fun h => h rfl) fun h => h.1 hr
  · rw [and_iff_right hr, generateEthIndex, hmo, hsu, toChar_toChar, toChar_toChar]
    split_ifs with ha
    · exact iff_of_true (portIndex_ne_zero _ _ _ _ _ _) ha
    · exact iff_of_false (fun h => h rfl) ha

def ResiduesAccepted (sys : System) (str : List UInt8) : Prop :=
  ∃ sub f, Written str sub ∧ assignFields ((pieces str).map residue) sub = some f ∧
    AcceptedFields sys f

theorem parseStrToEthIndex_eq_zero_iff (sys : System) (str : List UInt8) :
    parseStrToEthIndex sys str = .ret 0 ↔ ¬FiveThenDot str ∧ ¬ResiduesAccepted sys str := by
  have hr : ∀ sub, assignFields ((pieces str).map residue) sub =
      (assignFields (((pieces str).map fun t => (strtoul t).1).map (Nat.cast : ℕ → ℤ)) sub).map
        (PortFields.map toChar) := by
    intro sub
    rw [← assignFields_map, List.map_map, List.map_map]
    refine congrArg (assignFields · sub) (map_congr_left fun t _ => ?_)
    rw [Function.comp_apply, Function.comp_apply, residue]
  rw [← (parseFields_spec str).2.1]
  unfold parseStrToEthIndex
  cases hfl : parseFields str with
  | endless => exact absurd hfl (parseFields_spec str).1
  | overrun => exact iff_of_false nofun fun h => h.1 rfl
  | ret r =>
    rw [and_iff_right nofun]
    cases r with
    | none =>
      refine iff_of_true rfl ?_
      rintro ⟨sub, f, hwr, -⟩
      rw [parseFields_eq_ret_iff.mpr ⟨hwr, rfl⟩] at hfl
      exact some_ne_none _ (ret.inj hfl)
    | some r =>
      obtain ⟨fs, sub⟩ := r
      obtain ⟨hwr, rfl⟩ := parseFields_eq_ret_iff.mp hfl
      -- the separators tell whether there is a sub-port
      have hsu : ∀ sub', Written str sub' → sub' = sub := by
        intro sub' h'
        rw [parseFields_eq_ret_iff.mpr ⟨h', rfl⟩] at hfl
        exact congrArg Prod.snd (some.inj (ret.inj hfl))
      rw [ret.injEq]
      cases ha : assignFields (((pieces str).map fun t => (strtoul t).1).map
          (Nat.cast : ℕ → ℤ)) sub with
      | none =>
        refine iff_of_true rfl ?_
        rintro ⟨sub', f, hw, hf, -⟩
        rw [hsu sub' hw, hr, ha] at hf
        exact some_ne_none f hf.symm
      | some f =>
        have hac : ResiduesAccepted sys str ↔ AcceptedFields sys (f.map toChar) := by
          constructor
          · rintro ⟨sub', g, hw, hg, hacc⟩
            rw [hsu sub' hw, hr, ha] at hg
            exact some.inj hg ▸ hacc
          · intro hacc
            exact ⟨sub, f.map toChar, hwr, by rw [hr, ha]; rfl, hacc⟩
        rw [hac, ← indexOfFields_ne_zero_iff, not_not]
        rfl

/-! ## Reading a name back -/

theorem pieces_numbersText (n : ℕ) {rest : List (UInt8 × ℕ)}
    (hrs : ∀ p ∈ rest, isSeparator p.1 = true) :
    pieces (numbersText n rest) = decimal n :: rest.map (fun p => decimal p.2) ∧
      separators (numbersText n rest) = rest.map Prod.fst := by
  have hdi : ∀ {c : UInt8}, isDigit c = true → isSeparator c = false := by
    intro c hc
    have hsl : c ≠ slash := ne_of_isDigit hc (by decide)
    have hdo : c ≠ dot := ne_of_isDigit hc (by decide)
    rw [isSeparator, decide_eq_false hsl, decide_eq_false hdo, Bool.or_false]
  have hd : ∀ m, ∀ c ∈ decimal m, isSeparator c = false := fun m c hc =>
    hdi (isDigit_of_mem_decimal hc)
  have hn : ∀ m, (decimal m).filter isSeparator = [] := fun m =>
    filter_eq_nil_iff.mpr fun c hc => by rw [hd m c hc]; decide
  induction rest generalizing n with
  | nil =>
    rw [numbersText, flatMap_nil, append_nil]
    exact ⟨splitOnP_eq_singleton (hd n), hn n⟩
  | cons p rest ih =>
    have hp : isSeparator p.1 = true := hrs p mem_cons_self
    have ht : numbersText n (p :: rest) = decimal n ++ p.1 :: numbersText p.2 rest := by
      rw [numbersText, numbersText, flatMap_cons, cons_append]
    obtain ⟨hpi, hse⟩ := ih p.2 fun q hq => hrs q (mem_cons_of_mem p hq)
    constructor
    · rw [ht, pieces, splitOnP_append_cons_of_forall_mem (hd n) p.1 hp, ← pieces, hpi, map_cons]
    · rw [ht, separators, filter_append, hn, nil_append,
        filter_cons_of_pos hp, ← separators, hse, map_cons]

def portNumbers (first : ℕ) (others : List ℕ) (sub_port : ℕ) : List ℕ :=
  first :: others ++ if sub_port = 1 then [] else [sub_port]

theorem parseFields_portText {first : ℕ} {others : List ℕ} {sub_port : ℕ}
    (hlen : (portNumbers first others sub_port).length ≤ 5)
    (hma : ∀ n ∈ portNumbers first others sub_port, n ≤ ulongMax) :
    parseFields (portText slash first others sub_port) =
      .ret (some (portNumbers first others sub_port, decide (sub_port ≠ 1))) := by
  have hrd : ∀ {n : ℕ}, n ≤ ulongMax → strtoul (decimal n) = (n, []) := by
    intro n hn
    have ha : strtoul (decimal n ++ []) = (strtoulDigits (decimal n), []) :=
      strtoul_digits (decimal_ne_nil n) (fun _ => isDigit_of_mem_decimal)
        fun c hc => absurd hc (not_mem_none c)
    rw [append_nil, strtoulDigits_decimal hn] at ha
    exact ha
  obtain ⟨hpi, hse⟩ : pieces (portText slash first others sub_port) =
        (portNumbers first others sub_port).map decimal ∧
      separators (portText slash first others sub_port) =
        portSeparators others.length (decide (sub_port ≠ 1)) := by
    have hsp : ∀ p ∈ others.map (slash, ·) ++ (if sub_port = 1 then [] else [(dot, sub_port)]),
        isSeparator p.1 = true := by
      intro p hp
      rcases mem_append.mp hp with hp | hp
      · obtain ⟨m, -, rfl⟩ := List.mem_map.mp hp
        rfl
      · split_ifs at hp
        · exact absurd hp not_mem_nil
        · rw [mem_singleton.mp hp]
          rfl
    obtain ⟨hpi, hse⟩ := pieces_numbersText first hsp
    have hsl : others.map (fun _ => slash) = replicate others.length slash :=
      map_const'
    rw [portText, hpi, hse, portNumbers, portSeparators, ← hsl]
    by_cases hq : sub_port = 1
    · simp [hq]
    · simp [hq]
  refine parseFields_eq_ret_iff.mpr ⟨⟨?_, ⟨_, hse⟩, ?_⟩, ?_⟩
  · intro t ht
    rw [hpi] at ht
    obtain ⟨n, hn, rfl⟩ := List.mem_map.mp ht
    exact congrArg Prod.snd (hrd (hma n hn))
  · have hcn := length_pieces (portText slash first others sub_port)
    rw [hpi, length_map] at hcn
    omega
  · rw [hpi, List.map_map]
    refine (List.map_id _).symm.trans (map_congr_left fun n hn => ?_)
    exact (congrArg Prod.fst (hrd (hma n hn))).symm

def System.HasPort (sys : System) (chassis slot sub_slot port sub_port : ℕ) : Prop :=
  (if sys.box then chassis = 0 ∧ slot < sys.build.config.max_chassis_count ∧
      sub_slot ≤ sys.build.config.max_chassis_slot_count
    else chassis < sys.build.config.max_chassis_count ∧
      slot < sys.build.config.max_chassis_slot_count ∧
      sub_slot ≤ sys.build.config.max_slot_subboard_count) ∧
    sub_slot < 4 ∧ port < sys.build.config.max_ethport_per_board ∧
    sub_port < sys.build.config.max_subport_per_ethport

def System.IsPortIndex (sys : System) (x : UInt32) : Prop :=
  ∃ chassis slot sub_slot port sub_port : ℕ, sys.HasPort chassis slot sub_slot port sub_port ∧
    x = ethIfindex chassis slot sub_slot port sub_port

def System.AllowsUnit (sys : System) (x : UInt32) : Prop :=
  ((npdNetifEthGetChassis sys.box x + 1 : ℕ) : ℤ) = sys.local_unitno ∨ sys.cascade = true

theorem config_le (b : Build) :
    b.config.max_chassis_count ≤ 4 ∧ b.config.max_chassis_slot_count ≤ 16 ∧
      b.config.max_ethport_per_board = 64 ∧ b.config.max_subport_per_ethport ≤ 4 := by
  cases b <;> decide

theorem System.HasPort.get_ethIfindex {c s m p q : ℕ} (h : sys.HasPort c s m p q) :
    let x := ethIfindex c s m p q
    chassis.get x = c ∧ slot.get x = s ∧ subSlot.get x = m ∧
      port.get x = p ∧ reserved.get x = q := by
  obtain ⟨hmd, hm4, hp, hq⟩ := h
  obtain ⟨hc, hsl, hpt, hsb⟩ := config_le sys.build
  have hf : c < 4 ∧ s < 16 := by
    split_ifs at hmd
    · omega
    · omega
  exact Netif.get_ethIfindex hf.1 hf.2 hm4 (show p < 64 by omega) (show q < 16384 by omega)

theorem indexOfFields_eq (sys : System) {c s p : ℕ} {m q : Option ℕ}
    (ha : AcceptsPort sys.build.config c s (m.getD 0 : ℕ) p (q.getD 1 : ℕ)) :
    indexOfFields sys ⟨some c, s, m.map Nat.cast, p, q.map Nat.cast⟩ =
      if (c : ℤ) = sys.local_unitno ∨ sys.cascade = true then
        portIndex sys.box c s (m.getD 0 : ℕ) p (q.getD 1 : ℕ)
      else 0 := by
  obtain ⟨hcha, hsl, hpt, hsb⟩ := config_le sys.build
  have hb := ha
  obtain ⟨⟨-, hc⟩, ⟨-, hs⟩, ⟨-, hm⟩, ⟨-, hp⟩, -, hq⟩ := hb
  have hbo : sys.build.config.max_slot_subboard_count ≤ 5 := by cases sys.build <;> decide
  have hcc : toChar (c : ℤ) = c := toChar_of_lt (by omega)
  have hss : toChar (s : ℤ) = s := toChar_of_lt (by omega)
  have hmm : toChar ((m.getD 0 : ℕ) : ℤ) = (m.getD 0 : ℕ) := toChar_of_lt (by omega)
  have hpp : toChar (p : ℤ) = p := toChar_of_lt (by omega)
  have hqq : toChar ((q.getD 1 : ℕ) : ℤ) = (q.getD 1 : ℕ) := toChar_of_lt (by omega)
  have hmo : ((m.map (Nat.cast : ℕ → ℤ)).map toChar).getD 0 = (m.getD 0 : ℕ) := by
    cases m with
    | none => rfl
    | some m =>
      rw [getD_some] at hmm
      rw [map_some, map_some, getD_some, getD_some, hmm]
  have hsu : ((q.map (Nat.cast : ℕ → ℤ)).map toChar).getD 1 = (q.getD 1 : ℕ) := by
    cases q with
    | none => rfl
    | some q =>
      rw [getD_some] at hqq
      rw [map_some, map_some, getD_some, getD_some, hqq]
  have hu : ((some (c : ℤ)).map toChar).getD sys.local_unitno = c := by
    rw [map_some, getD_some, hcc]
  unfold indexOfFields
  simp only [hmo, hsu, hu, hss, hpp]
  rw [generateEthIndex, hcc, hss, hmm, hpp, hqq, if_pos ha, ← ite_not]
  refine if_congr ?_ rfl rfl
  rw [and_iff_right (show (some (c : ℤ)).isSome = true from rfl), not_and_or, not_not,
    Bool.not_eq_false]

theorem parseStrToEthIndex_portText (sys : System) {c s p q : ℕ} {m : Option ℕ}
    (hac : AcceptsPort sys.build.config c s (m.getD 0 : ℕ) p (q + 1 : ℕ)) :
    parseStrToEthIndex sys (portText slash c (s :: m.toList ++ [p]) (q + 1)) =
      .ret (if (c : ℤ) = sys.local_unitno ∨ sys.cascade = true then
        portIndex sys.box c s (m.getD 0 : ℕ) p (q + 1 : ℕ) else 0) := by
  have hsb : (if q = 0 then none else some (q + 1)).getD 1 = q + 1 := by
    split_ifs with hq
    · rw [hq]
      rfl
    · rfl
  have hsu : (if q + 1 = 1 then [] else [q + 1]) = (if q = 0 then [] else [q + 1]) :=
    if_congr (by omega) rfl rfl
  have hnu : portNumbers c (s :: m.toList ++ [p]) (q + 1) =
      (c :: s :: m.toList ++ [p]) ++ if q = 0 then [] else [q + 1] := by
    rw [portNumbers, hsu]
    rfl
  have ha : assignFields ((portNumbers c (s :: m.toList ++ [p]) (q + 1)).map
      (Nat.cast : ℕ → ℤ)) (decide (q + 1 ≠ 1)) =
        some ⟨some c, s, m.map Nat.cast, p, (if q = 0 then none else some (q + 1)).map Nat.cast⟩ := by
    rw [hnu]
    cases m <;> cases q <;> rfl
  have hlen : (portNumbers c (s :: m.toList ++ [p]) (q + 1)).length ≤ 5 := by
    rw [hnu]
    cases m <;> cases q <;> simp
  have hma : ∀ n ∈ portNumbers c (s :: m.toList ++ [p]) (q + 1), n ≤ ulongMax := by
    obtain ⟨hcha, hsl, hpt, hsp⟩ := config_le sys.build
    have hb : sys.build.config.max_slot_subboard_count ≤ 5 := by cases sys.build <;> decide
    obtain ⟨⟨-, hc⟩, ⟨-, hs⟩, ⟨-, hm⟩, ⟨-, hp⟩, -, hq⟩ := hac
    have hwd : 64 ≤ ulongMax := by decide
    intro n hn
    rw [hnu] at hn
    cases m <;> cases q <;> simp at hn hm <;> omega
  rw [parseStrToEthIndex, parseFields_portText hlen hma]
  dsimp only
  rw [ha, map_some, getD_some]
  have hi := indexOfFields_eq sys (c := c) (s := s) (p := p) (m := m)
    (q := if q = 0 then none else some (q + 1)) (by rw [hsb]; exact hac)
  rw [hi, hsb]

theorem parseStrToEthIndex_modularText {c s m p q : ℕ} (h : sys.HasPort c s m p q) :
    parseStrToEthIndex sys (modularText sys.box (ethIfindex c s m p q) slash) =
      .ret (if ((unitOf sys.box c s + 1 : ℕ) : ℤ) = sys.local_unitno ∨ sys.cascade = true then
        ethIfindex c s m p q else 0) := by
  obtain ⟨hg, hgs, hgm, hgp, hgq⟩ := h.get_ethIfindex
  obtain ⟨hmd, hm4, hp, hq⟩ := h
  have ht : modularText sys.box (ethIfindex c s m p q) slash =
      portText slash (unitOf sys.box c s + 1) (withModule sys.box s m p) (q + 1) := by
    rw [modularText, npdNetifEthGetChassis, modularNumbers, hg, hgs, hgm, hgp, hgq]
    rfl
  have hsu : ∀ n : ℕ, ((n + 1 : ℕ) : ℤ) - 1 = n := fun n => by omega
  rw [ht]
  cases hb : sys.box with
  | true =>
    rw [hb, if_pos rfl] at hmd
    have hrd := parseStrToEthIndex_portText sys (c := s + 1) (s := m) (m := none) (p := p + 1)
      (q := q) ⟨by omega, by omega, ⟨Int.le_refl 0, Int.natCast_nonneg _⟩, by omega, by omega⟩
    rw [hb, portIndex, if_pos rfl, hsu, hsu, hsu] at hrd
    rw [hmd.1]
    exact hrd
  | false =>
    rw [hb, if_neg Bool.false_ne_true] at hmd
    by_cases hm : m = 0
    · -- without a module there are three numbers
      subst hm
      have hrd := parseStrToEthIndex_portText sys (c := c + 1) (s := s + 1) (m := none)
        (p := p + 1) (q := q)
        ⟨by omega, by omega, ⟨Int.le_refl 0, Int.natCast_nonneg _⟩, by omega, by omega⟩
      rw [hb, portIndex, if_neg Bool.false_ne_true, hsu, hsu, hsu, hsu] at hrd
      exact hrd
    · have ho : withModule false s m p = [s + 1, m, p + 1] := if_pos hm
      have hrd := parseStrToEthIndex_portText sys (c := c + 1) (s := s + 1) (m := some m)
        (p := p + 1) (q := q)
        ⟨by omega, by omega, by rw [getD_some]; omega, by omega, by omega⟩
      rw [hb, portIndex, if_neg Bool.false_ne_true, hsu, hsu, hsu, hsu] at hrd
      rw [ho]
      exact hrd

/-! ## Which texts are read as they should be -/

def writtenNumber : ℤ :=
  let signed := signOf (t.dropWhile isSpace)
  let v := decimalValue (signed.2.takeWhile isDigit)
  if signed.1 then -v else v

def PortFields.InRange (k : NetifConfig) (f : PortFields ℤ) : Prop :=
  AcceptsPort k (f.chassis.getD 0) f.slot (f.module.getD 0) f.port (f.subport.getD 1)

def Malformed (sys : System) (str : List UInt8) : Prop :=
  ([] ∈ pieces str ∨ (pieces str).length < 2) ∨ 5 < (pieces str).length ∨
    ∃ sub f, Written str sub ∧ assignFields ((pieces str).map writtenNumber) sub = some f ∧
      ¬f.InRange sys.build.config

/-- The names of ports are read back: the name of a port is read as that port, and the name of no
other port is. -/
def NamesReadBack (sys : System) : Prop :=
  ∀ x, sys.IsPortIndex x → sys.AllowsUnit x →
    (∃ name, parseEthIndexToName sys.box x = some name ∧ parseStrToEthIndex sys name = .ret x) ∧
      ∀ y name, sys.IsPortIndex y → y ≠ x → parseEthIndexToName sys.box y = some name →
        parseStrToEthIndex sys name ≠ .ret x

theorem parse_name_of_isPortIndex {x : UInt32} (h : sys.IsPortIndex x) :
    x ≠ 0 ∧ parseEthIndexToName sys.box x = some (modularText sys.box x slash) ∧
      (sys.AllowsUnit x → parseStrToEthIndex sys (modularText sys.box x slash) = .ret x) ∧
      (¬sys.AllowsUnit x → parseStrToEthIndex sys (modularText sys.box x slash) = .ret 0) := by
  obtain ⟨c, s, m, p, q, hpt, rfl⟩ := h
  have hrd := parseStrToEthIndex_modularText hpt
  have hu : npdNetifEthGetChassis sys.box (ethIfindex c s m p q) = unitOf sys.box c s := by
    obtain ⟨hg, hgs, -⟩ := hpt.get_ethIfindex
    rw [npdNetifEthGetChassis, hg, hgs, unitOf]
  have ha : sys.AllowsUnit (ethIfindex c s m p q) ↔
      ((unitOf sys.box c s + 1 : ℕ) : ℤ) = sys.local_unitno ∨ sys.cascade = true := by
    rw [System.AllowsUnit, hu]
  refine ⟨portIndex_ne_zero false (c + 1) (s + 1) m (p + 1) (q + 1) ∘ fun h => ?_, ?_, ?_, ?_⟩
  · rw [portIndex, if_neg Bool.false_ne_true, add_sub_cancel_right, add_sub_cancel_right,
      add_sub_cancel_right, add_sub_cancel_right]
    exact h
  · exact if_pos (ifType_ethIfindex _ _ _ _ _)
  · intro hallow
    rw [hrd, if_pos (ha.mp hallow)]
  · intro hallow
    rw [hrd, if_neg (ha.not.mp hallow)]

theorem namesReadBack (sys : System) : NamesReadBack sys := by
  intro x hx hallow
  obtain ⟨hne, hn, hrd, -⟩ := parse_name_of_isPortIndex hx
  refine ⟨⟨_, hn, hrd hallow⟩, fun y name hy hyx hyn => ?_⟩
  obtain ⟨-, hn', hrd', ho⟩ := parse_name_of_isPortIndex hy
  obtain rfl : modularText sys.box y slash = name := mem_unique hn' hyn
  by_cases hu : sys.AllowsUnit y
  · rw [hrd' hu]
    exact fun h => hyx (ret.inj h)
  · rw [ho hu]
    exact fun h => hne (ret.inj h).symm

theorem malformed_of_fiveThenDot (h : FiveThenDot str) : Malformed sys str := by
  have hlen : 5 ≤ (separators str).length := h.2.length_le
  have hp := length_pieces str
  exact Or.inr (Or.inl (by omega))

/-- **Which names of ports are read as they should be.** Every port is read back from its name. A
text that is no name of a port is refused, unless it has five numbers with a dot behind them, or
its numbers are in their ranges after they are cut down to a `char`. -/
theorem portName_iff (sys : System) (str : List UInt8) :
    (NamesReadBack sys ∧ (Malformed sys str → parseStrToEthIndex sys str = .ret 0)) ↔
      ¬FiveThenDot str ∧ ¬(Malformed sys str ∧ ResiduesAccepted sys str) := by
  rw [and_iff_right (namesReadBack sys), parseStrToEthIndex_eq_zero_iff]
  constructor
  · intro h
    refine ⟨fun hfive => ?_, fun hboth => (h hboth.1).2 hboth.2⟩
    exact (h (malformed_of_fiveThenDot hfive)).1 hfive
  · rintro ⟨hfive, hboth⟩ hmal
    exact ⟨hfive, fun hacc => hboth ⟨hmal, hacc⟩⟩

def chassisSystem : System := ⟨.default, false, 1, false⟩

def slotTooLarge : List UInt8 := [49, 47, 50, 53, 55, 47, 49]

/-- The slot 257 is read as the slot 1. -/
theorem slotTooLarge_read : Malformed chassisSystem slotTooLarge ∧
    parseStrToEthIndex chassisSystem slotTooLarge = .ret (ethIfindex 0 0 0 0 0) ∧
    ethIfindex 0 0 0 0 0 ≠ 0 := by
  refine ⟨Or.inr (Or.inr ⟨false, ⟨some 1, 257, none, 1, none⟩, ?_, ?_, ?_⟩), ?_, ?_⟩
  · exact ⟨by decide, ⟨2, by decide⟩, by decide⟩
  · rfl
  · rintro ⟨-, ⟨-, h⟩, -⟩
    cases h
  · decide
  · decide

end Chanos.Netif

import Chanos.Lib.NumberList
import Chanos.Lib.SortDistinct
import Chanos.Netif.PortRange

/-!
# Reading a list of ports

`parse_portlist` reads a list such as `1/1/2,1/2/1-8`, one character after the other, in four
states: before the first slash, before the second, behind it, and in the upper end of a range. Each
comma ends an item.
-/

namespace Chanos.Netif

open Lib List Option NumberListReader

/-- The order of the indexes. -/
instance linearOrderUInt32 : LinearOrder UInt32 where
  le_refl := UInt32.le_refl
  le_trans _ _ _ := UInt32.le_trans
  le_antisymm _ _ := UInt32.le_antisymm
  le_total := UInt32.le_total
  lt_iff_le_not_ge a b := by
    rw [UInt32.lt_iff_toNat_lt, UInt32.le_iff_toNat_le, UInt32.le_iff_toNat_le]
    omega
  toDecidableLE := fun _ _ => inferInstance
  toDecidableEq := inferInstance
  toDecidableLT := fun _ _ => inferInstance

inductive ParseState
  | S
  | SS
  | PS
  | PE
  deriving DecidableEq

structure ListVars where
  state : ParseState
  chassis : ℕ
  slot : ℕ
  sub_slot : ℕ
  digit_temp : List UInt8
  ulPortS : ℕ
  ulInterfaceList : List UInt32

def ListVars.init : ListVars := ⟨.S, 0, 0, 0, [], 0, []⟩

def System.RefusesUnit (sys : System) (chassis : ℕ) : Prop :=
  (chassis : ℤ) ≠ sys.local_unitno % 4294967296 ∧ sys.cascade = false

instance (sys : System) (chassis : ℕ) : Decidable (sys.RefusesUnit chassis) :=
  inferInstanceAs (Decidable (_ ∧ _))

def pushDigit (digit_temp : List UInt8) (cToken : UInt8) : Except Fault (List UInt8) :=
  if 12 ≤ digit_temp.length then .error .overrun
  else if 11 ≤ digit_temp.length + 1 then .error .null
  else .ok (digit_temp ++ [cToken])

def endNumber (digit_temp : List UInt8) : Except Fault ℕ :=
  if digit_temp = [] then .error .null
  else if 12 ≤ digit_temp.length then .error .overrun
  else .ok (strtoulDigits digit_temp)

variable (turns : ℕ)

def separator (sys : System) (v : ListVars) (n : ℕ) (cToken : UInt8) :
    Except Fault ListVars :=
  match v.state with
  | .S =>
    if cToken = slash then .ok { v with state := .SS, chassis := n }
    else .error .null
  | .SS =>
    if cToken = slash then .ok { v with state := .PS, slot := n }
    else if cToken = comma then do
      let list ← storePort v.ulInterfaceList (generateEthIndex sys 0 0 0 n 1)
      .ok { v with state := .S, chassis := 0, slot := 0, ulPortS := n, ulInterfaceList := list }
    else if cToken = dash then
      .ok { v with state := .PE, chassis := 0, slot := 0, ulPortS := n }
    else .error .null
  | .PS =>
    if cToken = slash then .ok { v with sub_slot := n }
    else if cToken = comma then
      if sys.RefusesUnit v.chassis then .error .null
      else do
        let list ← storePort v.ulInterfaceList
          (generateEthIndex sys v.chassis v.slot v.sub_slot n 1)
        .ok { v with state := .S, ulPortS := n, ulInterfaceList := list }
    else if cToken = dash then .ok { v with state := .PE, ulPortS := n }
    else .error .null
  | .PE =>
    if cToken = comma then
      if sys.RefusesUnit v.chassis then .error .null
      else do
        let list ← rangeLoop (fun i => generateEthIndex sys v.chassis v.slot v.sub_slot i 1)
          (max v.ulPortS n) turns (min v.ulPortS n) v.ulInterfaceList
        .ok { v with state := .S, ulInterfaceList := list }
    else .error .null

def portlistStep (sys : System) (v : ListVars) (cToken : UInt8) :
    Except Fault ListVars :=
  if isDigit cToken then do
    let digit_temp ← pushDigit v.digit_temp cToken
    .ok { v with digit_temp := digit_temp }
  else do
    let n ← endNumber v.digit_temp
    separator turns sys { v with digit_temp := [] } n cToken

def portlistRun (sys : System) (v : ListVars) (text : List UInt8) :
    Except Fault ListVars :=
  text.foldlM (portlistStep turns sys) v

def portlistResult (list : Except Fault (List UInt32)) : Outcome (Option (List UInt32)) :=
  match list with
  | .ok list => .ret (if list = [] then none else some (sortDistinct list))
  | .error .null => .ret none
  | .error .overrun => .overrun
  | .error .endless => .endless

/-- `parse_portlist`, with as many turns for each range. -/
def portlistWithin (sys : System) (portlist : List UInt8) :
    Outcome (Option (List UInt32)) :=
  portlistResult
    ((portlistRun turns sys .init (portlist ++ [comma])).map ListVars.ulInterfaceList)

/-- `parse_portlist`. -/
def parsePortlist (sys : System) (portlist : List UInt8) : Outcome (Option (List UInt32)) :=
  portlistWithin 4294967296 sys portlist

structure PortItem where
  fields : List ℕ
  first : ℕ
  last : Option ℕ
  deriving DecidableEq

def lexNumber (ds : List UInt8) : Option ℕ :=
  if IsNumeral ds ∧ ds.length ≤ 10 then some (strtoulDigits ds) else none

def lexPorts (w : List UInt8) : Option (ℕ × Option ℕ) :=
  (lexNumber (w.takeWhile isDigit)).bind fun p =>
    match w.dropWhile isDigit with
    | [] => some (p, none)
    | c :: es => if c = dash then (lexNumber es).map fun q => (p, some q) else none

def lexFields : List (List UInt8) → Option PortItem
  | [] => none
  | w :: ws =>
    if ws = [] then (lexPorts w).map fun ports => ⟨[], ports.1, ports.2⟩
    else
      (lexNumber w).bind fun n =>
        (lexFields ws).map fun it => { it with fields := n :: it.fields }

def lexPortItem (w : List UInt8) : Option PortItem :=
  (lexFields (w.splitOn slash)).filter fun it => it.fields ≠ []

def lexPortlist (str : List UInt8) : Option (List PortItem) :=
  (str.splitOn comma).mapM lexPortItem

structure Board where
  chassis : ℕ
  slot : ℕ
  sub_slot : ℕ
  deriving DecidableEq

open Board

def Board.port (sys : System) (b : Board) (i : ℕ) : UInt32 :=
  generateEthIndex sys b.chassis b.slot b.sub_slot i 1

namespace PortItem

def board (m : ℕ) (it : PortItem) : Board :=
  match it.fields with
  | c :: s :: ms => ⟨c, s, ms.getLast?.getD m⟩
  | _ => ⟨0, 0, if it.last = none then 0 else m⟩

def leftModule (m : ℕ) (it : PortItem) : ℕ :=
  match it.fields with
  | _ :: _ :: ms => ms.getLast?.getD m
  | _ => m

def Allowed (sys : System) (it : PortItem) : Prop :=
  (it.fields.length < 2 ∧ it.last = none) ∨ ¬sys.RefusesUnit (it.board 0).chassis

instance (sys : System) (it : PortItem) : Decidable (it.Allowed sys) :=
  inferInstanceAs (Decidable (_ ∨ _))

def lower (it : PortItem) : ℕ := min it.first (it.last.getD it.first)

def upper (it : PortItem) : ℕ := max it.first (it.last.getD it.first)

def collect (turns : ℕ) (sys : System) (b : Board) (it : PortItem) (list : List UInt32) :
    Except Fault (List UInt32) :=
  match it.last with
  | none => storePort list (b.port sys it.first)
  | some _ => rangeLoop (b.port sys) it.upper turns it.lower list

def read (turns : ℕ) (sys : System) (a : ℕ × List UInt32) (it : PortItem) :
    Except Fault (ℕ × List UInt32) :=
  if it.Allowed sys then
    (it.collect turns sys (it.board a.1) a.2).map fun list => (it.leftModule a.1, list)
  else .error .null

end PortItem

def readPiece (sys : System) (a : ℕ × List UInt32) (w : List UInt8) :
    Except Fault (ℕ × List UInt32) :=
  match lexPortItem w with
  | none => .error .null
  | some it => it.read turns sys a

/-! ## The machine reads the grammar -/

def ListVars.Ready (v : ListVars) : Prop := v.state = .S ∧ v.digit_temp = []

section

variable {turns : ℕ} {sys : System} {v : ListVars} {w : List UInt8} {c : UInt8} {ds : List UInt8}

theorem portlistRun_append (x y : List UInt8) :
    portlistRun turns sys v (x ++ y) =
      portlistRun turns sys v x >>= fun v => portlistRun turns sys v y :=
  foldlM_append

theorem portlistRun_cons (c : UInt8) (x : List UInt8) :
    portlistRun turns sys v (c :: x) =
      portlistStep turns sys v c >>= fun v => portlistRun turns sys v x :=
  foldlM_cons

section

variable (hds : ∀ c ∈ ds, isDigit c = true)
include hds

theorem portlistRun_digits (hv : v.digit_temp = []) :
    portlistRun turns sys v ds =
      if ds.length ≤ 10 then .ok { v with digit_temp := ds } else .error .null := by
  have hva : ({ v with digit_temp := [] } : ListVars) = v := by rw [← hv]
  have hrun := foldlM_push (f := portlistStep turns sys) (n := 11) (e := .null) (k := ds) (l := [])
    (fun digits => { v with digit_temp := digits }) (Nat.zero_le 11) fun l hl c hc => by
      have hr : ¬12 ≤ l.length := by omega
      rw [portlistStep, if_pos (hds c hc), pushDigit, if_neg hr]
      split_ifs <;> rfl
  rw [hva] at hrun
  refine hrun.trans (if_congr ?_ rfl rfl)
  cases ds <;> simp
  omega

section

variable (hrest : isDigit c = false) (hv : v.digit_temp = [])
include hrest hv

theorem portlistRun_number (x : List UInt8) :
    portlistRun turns sys v (ds ++ c :: x) =
      match lexNumber ds with
      | none => .error .null
      | some n => separator turns sys v n c >>= fun v => portlistRun turns sys v x := by
  rw [portlistRun_append, portlistRun_digits hds hv]
  split_ifs with hma
  · have hva : ({ v with digit_temp := [] } : ListVars) = v := by rw [← hv]
    have ht : ¬isDigit c = true := by rw [hrest]; exact Bool.false_ne_true
    change portlistRun turns sys { v with digit_temp := ds } (c :: x) = _
    rw [portlistRun_cons, portlistStep, if_neg ht, endNumber]
    by_cases hn : ds = []
    · -- there is no digit
      have hlx : lexNumber ds = none := if_neg fun h => h.1.1 hn
      rw [hlx, if_pos hn]
      rfl
    · have hlx : lexNumber ds = some (strtoulDigits ds) := if_pos ⟨⟨hn, hds⟩, hma⟩
      have hr : ¬12 ≤ ds.length := by omega
      rw [hlx, if_neg hn, if_neg hr]
      change separator turns sys { v with digit_temp := [] } _ c >>= _ = _
      rw [hva]
  · have hlx : lexNumber ds = none := if_neg fun h => hma h.2
    rw [hlx]
    rfl

theorem portlistRun_number_error (hse : ∀ n, separator turns sys v n c = .error .null)
    (x : List UInt8) : portlistRun turns sys v (ds ++ c :: x) = .error .null := by
  rw [portlistRun_number hds hrest hv]
  cases lexNumber ds with
  | none => rfl
  | some n =>
    dsimp only
    rw [hse]
    rfl

end

end

theorem separator_other (hsl : c ≠ slash) (hc : c ≠ comma) (hd : c ≠ dash)
    (n : ℕ) : separator turns sys v n c = .error .null := by
  unfold separator
  cases v.state with
  | S => exact if_neg hsl
  | SS | PS =>
    dsimp only
    rw [if_neg hsl, if_neg hc, if_neg hd]
  | PE => exact if_neg hc

theorem separator_S_error (hs : v.state = .S) (hrest : c ≠ slash) (n : ℕ) :
    separator turns sys v n c = .error .null := by
  unfold separator
  rw [hs]
  exact if_neg hrest

theorem separator_S_slash (hs : v.state = .S) (n : ℕ) :
    separator turns sys v n slash = .ok { v with state := .SS, chassis := n } := by
  unfold separator
  rw [hs]
  exact if_pos rfl

theorem separator_PE_error (hs : v.state = .PE) (hrest : c ≠ comma) (n : ℕ) :
    separator turns sys v n c = .error .null := by
  unfold separator
  rw [hs]
  exact if_neg hrest

variable (turns sys) in
theorem separator_dash (hs : v.state = .SS ∨ v.state = .PS) (n : ℕ) :
    ∃ v', separator turns sys v n dash = .ok v' ∧ v'.state = .PE ∧ v'.digit_temp = v.digit_temp := by
  unfold separator
  rcases hs with hs | hs
  all_goals
    rw [hs]
    exact ⟨_, rfl, rfl, rfl⟩

variable (turns sys) in
theorem separator_slash (hs : v.state = .SS ∨ v.state = .PS) (n : ℕ) :
    ∃ v', separator turns sys v n slash = .ok v' ∧ v'.state = .PS ∧
      v'.digit_temp = v.digit_temp := by
  unfold separator
  rcases hs with hs | hs
  all_goals
    rw [hs]
    exact ⟨_, rfl, rfl, rfl⟩

def PortItem.run (turns : ℕ) (sys : System) (v : ListVars) (it : PortItem) :
    Except Fault ListVars := do
  let v ← it.fields.foldlM (fun v n => separator turns sys v n slash) v
  match it.last with
  | none => separator turns sys v it.first comma
  | some q => do
    let v ← separator turns sys v it.first dash
    separator turns sys v q comma

theorem lexNumber_eq_none (hme : c ∈ w) (hrest : isDigit c = false) : lexNumber w = none := by
  refine if_neg fun h => ?_
  rw [h.1.2 c hme] at hrest
  cases hrest

/-- Up to `c` the machine reads a number, if every other character ends the run. -/
theorem portlistRun_until (hc : isDigit c = false) (hv : v.digit_temp = [])
    (hse : ∀ d ∈ w, ∀ n, separator turns sys v n d = .error .null) (x : List UInt8) :
    portlistRun turns sys v (w ++ c :: x) =
      match lexNumber w with
      | none => .error .null
      | some n => separator turns sys v n c >>= fun v => portlistRun turns sys v x := by
  rcases digits_or_stop w with hds | ⟨ds, d, rest, rfl, hds, hrest, hme⟩
  · exact portlistRun_number hds hc hv x
  rw [lexNumber_eq_none hme hrest, append_assoc]
  exact portlistRun_number_error hds hrest hv (hse d hme) _

theorem lexPorts_digits {ds : List UInt8} (hds : ∀ c ∈ ds, isDigit c = true) :
    lexPorts ds = (lexNumber ds).map fun p => (p, none) := by
  rw [lexPorts, takeWhile_eq_self_iff.mpr hds, dropWhile_eq_nil_iff.mpr hds]
  cases lexNumber ds with
  | none => rfl
  | some p => rfl

theorem lexPorts_append {ds es : List UInt8} (hds : ∀ c ∈ ds, isDigit c = true)
    (hrest : isDigit c = false) : lexPorts (ds ++ c :: es) = (lexNumber ds).bind fun p =>
      if c = dash then (lexNumber es).map fun q => (p, some q) else none := by
  have ht : ¬isDigit c = true := by rw [hrest]; exact Bool.false_ne_true
  rw [lexPorts, takeWhile_append_of_pos hds, takeWhile_cons_of_neg ht, append_nil,
    dropWhile_append_of_pos hds, dropWhile_cons_of_neg ht]

variable (turns sys) in
theorem portlistRun_ports (hs : v.state = .SS ∨ v.state = .PS) (hv : v.digit_temp = [])
    (hsl : slash ∉ w) (hc : comma ∉ w) :
    portlistRun turns sys v (w ++ [comma]) =
      match lexPorts w with
      | none => .error .null
      | some ports => PortItem.run turns sys v ⟨[], ports.1, ports.2⟩ := by
  rcases digits_or_stop w with hds | ⟨ds, c, rest, rfl, hds, hrest, hme⟩
  · rw [lexPorts_digits hds, portlistRun_number hds (by decide) hv]
    cases lexNumber w with
    | none => rfl
    | some p => exact bind_pure _
  have hneComma : c ≠ comma := fun heq => hc (heq ▸ hme)
  have hneSlash : c ≠ slash := fun heq => hsl (heq ▸ hme)
  rw [lexPorts_append hds hrest, append_assoc, cons_append]
  by_cases hda : c = dash
  · -- a range, so the rest is its upper end
    subst hda
    rw [portlistRun_number hds hrest hv]
    cases lexNumber ds with
    | none => rfl
    | some p =>
      obtain ⟨v', hv', hs', hd'⟩ := separator_dash turns sys hs p
      have hw (d : UInt8) (hd : d ∈ rest) : d ≠ comma := fun h =>
        hc (mem_append_right ds (mem_cons_of_mem dash (h ▸ hd)))
      dsimp only [bind_some]
      rw [if_pos rfl, hv']
      calc portlistRun turns sys v' (rest ++ [comma]) = _ :=
            portlistRun_until (by decide) (hd'.trans hv)
              (fun d hd => separator_PE_error hs' (hw d hd)) []
        _ = _ := by
          cases lexNumber rest with
          | none => rfl
          | some q =>
            change _ = separator turns sys v p dash >>= fun v => separator turns sys v q comma
            rw [hv']
            exact bind_pure _
  · rw [portlistRun_number_error hds hrest hv (separator_other hneSlash hneComma hda)]
    cases lexNumber ds with
    | none => rfl
    | some p =>
      dsimp only [bind_some]
      rw [if_neg hda]

theorem portlistRun_field (hs : v.state = .SS ∨ v.state = .PS) (hv : v.digit_temp = [])
    (hsl : slash ∉ w) (hc : comma ∉ w) (x : List UInt8) :
    portlistRun turns sys v (w ++ slash :: x) =
      match lexNumber w with
      | none => .error .null
      | some n => separator turns sys v n slash >>= fun v => portlistRun turns sys v x := by
  rcases digits_or_stop w with hds | ⟨ds, c, rest, rfl, hds, hrest, hme⟩
  · exact portlistRun_number hds (by decide) hv x
  have hneComma : c ≠ comma := fun heq => hc (heq ▸ hme)
  have hneSlash : c ≠ slash := fun heq => hsl (heq ▸ hme)
  rw [lexNumber_eq_none hme hrest, append_assoc, cons_append]
  by_cases hda : c = dash
  · -- the upper end of a range does not have a slash behind it
    subst hda
    rw [portlistRun_number hds hrest hv]
    cases lexNumber ds with
    | none => rfl
    | some p =>
      obtain ⟨v', hv', hs', hd'⟩ := separator_dash turns sys hs p
      have hw (d : UInt8) (hd : d ∈ rest) : d ≠ comma := fun h =>
        hc (mem_append_right ds (mem_cons_of_mem dash (h ▸ hd)))
      dsimp only
      rw [hv']
      change portlistRun turns sys v' (rest ++ slash :: x) = .error .null
      rw [portlistRun_until (by decide) (hd'.trans hv)
        fun d hd => separator_PE_error hs' (hw d hd)]
      cases lexNumber rest with
      | none => rfl
      | some q =>
        dsimp only
        rw [separator_PE_error hs' (by decide)]
        rfl
  · exact portlistRun_number_error hds hrest hv (separator_other hneSlash hneComma hda) _

theorem portlistRun_fields {ws : List (List UInt8)} (hws : ws ≠ [])
    (hs : v.state = .SS ∨ v.state = .PS) (hv : v.digit_temp = [])
    (hsl : ∀ w ∈ ws, slash ∉ w) (hc : ∀ w ∈ ws, comma ∉ w) :
    portlistRun turns sys v ([slash].intercalate ws ++ [comma]) =
      match lexFields ws with
      | none => .error .null
      | some it => it.run turns sys v := by
  induction ws generalizing v with
  | nil => exact absurd rfl hws
  | cons w ws ih =>
    have hw := mem_cons_self (a := w) (l := ws)
    cases ws with
    | nil =>
      have hrun := portlistRun_ports turns sys hs hv (hsl w hw) (hc w hw)
      rw [lexFields, if_pos rfl]
      calc portlistRun turns sys v ([slash].intercalate [w] ++ [comma])
          = portlistRun turns sys v (w ++ [comma]) := by simp
        _ = _ := hrun
        _ = _ := by
          cases lexPorts w with
          | none => rfl
          | some ports => rfl
    | cons u us =>
      have hj : [slash].intercalate (w :: u :: us) ++ [comma] =
          w ++ slash :: ([slash].intercalate (u :: us) ++ [comma]) := by
        rw [intercalate_cons_cons]
        simp only [append_assoc, cons_append, nil_append]
      rw [hj, portlistRun_field hs hv (hsl w hw) (hc w hw), lexFields, if_neg (cons_ne_nil u us)]
      cases lexNumber w with
      | none => rfl
      | some n =>
        obtain ⟨v', hv', hs', hd'⟩ := separator_slash turns sys hs n
        have hrest := ih (cons_ne_nil u us) (Or.inr hs') (hd'.trans hv)
          (fun w h => hsl w (mem_cons_of_mem _ h))
          (fun w h => hc w (mem_cons_of_mem _ h))
        dsimp only [bind_some]
        rw [hv']
        calc portlistRun turns sys v' ([slash].intercalate (u :: us) ++ [comma]) = _ := hrest
          _ = _ := by
            cases lexFields (u :: us) with
            | none => rfl
            | some it =>
              dsimp only [map_some, PortItem.run]
              rw [foldlM_cons, hv']
              rfl

theorem portlistRun_first (hv : v.Ready) (hsl : slash ∉ w) (x : List UInt8) :
    portlistRun turns sys v (w ++ slash :: x) =
      match lexNumber w with
      | none => .error .null
      | some n => portlistRun turns sys { v with state := .SS, chassis := n } x := by
  rw [portlistRun_until (by decide) hv.2 fun c hc => separator_S_error hv.1 fun h => hsl (h ▸ hc)]
  cases lexNumber w with
  | none => rfl
  | some n =>
    dsimp only
    rw [separator_S_slash hv.1]
    rfl

theorem portlistRun_item (hv : v.Ready) (hcm : comma ∉ w) :
    portlistRun turns sys v (w ++ [comma]) =
      match lexPortItem w with
      | none => .error .null
      | some it => it.run turns sys v := by
  have hj : [slash].intercalate (w.splitOn slash) = w := intercalate_splitOn slash
  have hsl : ∀ u ∈ w.splitOn slash, slash ∉ u := fun u hu => (splitOn_pieces hu).1
  have hc : ∀ u ∈ w.splitOn slash, comma ∉ u := fun u hu hme =>
    hcm ((splitOn_pieces hu).2 comma hme)
  rw [lexPortItem]
  obtain ⟨u, us, hus⟩ := exists_cons_of_ne_nil (splitOn_ne_nil slash w)
  rw [hus] at hj hsl hc ⊢
  cases us with
  | nil =>
    -- there is no slash, so a character comes that the first state does not go on with
    have hno : (lexFields [u]).filter (fun it => it.fields ≠ []) = none := by
      rw [lexFields, if_pos rfl]
      cases lexPorts u with
      | none => rfl
      | some ports => rfl
    rw [hno]
    obtain rfl : u = w := by simpa using hj
    rw [portlistRun_until (by decide) hv.2 fun c hc =>
      separator_S_error hv.1 fun h => hsl u mem_cons_self (h ▸ hc)]
    cases lexNumber u with
    | none => rfl
    | some n =>
      dsimp only
      rw [separator_S_error hv.1 (by decide)]
      rfl
  | cons u' us =>
    have ht : w ++ [comma] = u ++ slash :: ([slash].intercalate (u' :: us) ++ [comma]) := by
      rw [← hj, intercalate_cons_cons]
      simp only [append_assoc, cons_append, nil_append]
    rw [ht, portlistRun_first hv (hsl u mem_cons_self), lexFields, if_neg (cons_ne_nil u' us)]
    cases lexNumber u with
    | none => rfl
    | some n =>
      dsimp only [bind_some]
      rw [portlistRun_fields (v := { v with state := .SS, chassis := n })
        (cons_ne_nil u' us) (Or.inl rfl) hv.2
        (fun w h => hsl w (mem_cons_of_mem _ h))
        (fun w h => hc w (mem_cons_of_mem _ h))]
      cases lexFields (u' :: us) with
      | none => rfl
      | some it =>
        have hkp : (some { it with fields := n :: it.fields }).filter
            (fun it => it.fields ≠ []) = some { it with fields := n :: it.fields } :=
          filter_some_pos (by simp)
        dsimp only [map_some]
        rw [hkp]
        dsimp only [PortItem.run]
        rw [foldlM_cons, separator_S_slash hv.1]
        rfl

end

/-! ## What one piece leaves to the next -/

def Leaves (x : Except Fault ListVars) (y : Except Fault (ℕ × List UInt32)) : Prop :=
  (∃ e, x = .error e ∧ y = .error e) ∨
    ∃ v, x = .ok v ∧ v.Ready ∧ y = .ok (v.sub_slot, v.ulInterfaceList)

theorem leaves_bind (x : Except Fault (List UInt32)) {g : List UInt32 → ListVars} {m : ℕ}
    (hg : ∀ l, (g l).Ready ∧ (g l).sub_slot = m ∧ (g l).ulInterfaceList = l) :
    Leaves (x >>= fun l => .ok (g l)) (x.map fun l => (m, l)) := by
  cases x with
  | error e => exact Or.inl ⟨e, rfl, rfl⟩
  | ok l =>
    obtain ⟨hr, hm, hl⟩ := hg l
    refine Or.inr ⟨g l, rfl, hr, ?_⟩
    rw [hm, hl]
    rfl

section

variable {turns : ℕ} {sys : System} {v : ListVars}

variable (turns sys) in
theorem foldlM_modules (hs : v.state = .PS) (ms : List ℕ) :
    ms.foldlM (fun v n => separator turns sys v n slash) v =
      .ok { v with sub_slot := ms.getLast?.getD v.sub_slot } := by
  induction ms generalizing v with
  | nil => rfl
  | cons m ms ih =>
    have hst : separator turns sys v m slash = .ok { v with sub_slot := m } := by
      unfold separator
      rw [hs]
      exact if_pos rfl
    have hla : (m :: ms).getLast?.getD v.sub_slot = ms.getLast?.getD m := by
      rw [getLast?_cons]
      rfl
    rw [foldlM_cons, hst, hla]
    exact ih (v := { v with sub_slot := m }) hs

theorem separator_SS_slash (hs : v.state = .SS) (n : ℕ) :
    separator turns sys v n slash = .ok { v with state := .PS, slot := n } := by
  unfold separator
  rw [hs]
  exact if_pos rfl

theorem separator_SS_comma (hs : v.state = .SS) (n : ℕ) :
    separator turns sys v n comma =
      storePort v.ulInterfaceList (port sys ⟨0, 0, 0⟩ n) >>= fun list =>
        .ok { v with
          state := .S, chassis := 0, slot := 0, ulPortS := n, ulInterfaceList := list } := by
  have hp : port sys ⟨0, 0, 0⟩ n = generateEthIndex sys 0 0 0 n 1 := by
    rw [port, Nat.cast_zero]
  unfold separator
  rw [hs, hp]
  dsimp only
  rw [if_neg (by decide), if_pos rfl]

theorem separator_PS_comma (hs : v.state = .PS) (n : ℕ) :
    separator turns sys v n comma =
      if sys.RefusesUnit v.chassis then .error .null
      else storePort v.ulInterfaceList (port sys ⟨v.chassis, v.slot, v.sub_slot⟩ n) >>=
        fun list => .ok { v with state := .S, ulPortS := n, ulInterfaceList := list } := by
  unfold separator
  rw [hs]
  rw [if_neg (by decide), if_pos rfl]
  rfl

theorem foldlM_fields (hs : v.state = .S) (c s : ℕ) (ms : List ℕ) :
    (c :: s :: ms).foldlM (fun v n => separator turns sys v n slash) v =
      .ok { v with
        state := .PS, chassis := c, slot := s, sub_slot := ms.getLast?.getD v.sub_slot } := by
  have hmo := foldlM_modules turns sys
    (v := { v with state := .PS, chassis := c, slot := s }) rfl ms
  rw [foldlM_cons, separator_S_slash hs, ok_bind, foldlM_cons, separator_SS_slash rfl, ok_bind]
  exact hmo

theorem leaves_upper (hs : v.state = .PE) (hd : v.digit_temp = []) (q : ℕ) :
    Leaves (separator turns sys v q comma)
      (if sys.RefusesUnit v.chassis then .error .null
        else (rangeLoop (port sys ⟨v.chassis, v.slot, v.sub_slot⟩) (max v.ulPortS q) turns
          (min v.ulPortS q) v.ulInterfaceList).map fun l => (v.sub_slot, l)) := by
  unfold separator
  rw [hs]
  dsimp only
  rw [if_pos rfl]
  split_ifs
  · exact Or.inl ⟨.null, rfl, rfl⟩
  · exact leaves_bind _ fun l => ⟨⟨rfl, hd⟩, rfl, rfl⟩

theorem leaves_run (hv : v.Ready) {it : PortItem} (hfl : it.fields ≠ []) :
    Leaves (it.run turns sys v) (it.read turns sys (v.sub_slot, v.ulInterfaceList)) := by
  obtain ⟨fields, first, last⟩ := it
  obtain ⟨hs, hd⟩ := hv
  rcases fields with _ | ⟨c, _ | ⟨s, ms⟩⟩
  · exact absurd rfl hfl
  · -- one slash: the board 0, whose unit is tested for a range only
    have hf : [c].foldlM (fun v n => separator turns sys v n slash) v =
        .ok { v with state := .SS, chassis := c } := by
      rw [foldlM_cons, separator_S_slash hs]
      rfl
    dsimp only [PortItem.run]
    rw [hf, ok_bind]
    cases last with
    | none =>
      have hallow : PortItem.Allowed sys ⟨[c], first, none⟩ := Or.inl ⟨Nat.lt_succ_self 1, rfl⟩
      rw [PortItem.read, if_pos hallow]
      rw [separator_SS_comma rfl]
      exact leaves_bind _ fun l => ⟨⟨rfl, hd⟩, rfl, rfl⟩
    | some q =>
      have hallow : PortItem.Allowed sys ⟨[c], first, some q⟩ ↔ ¬sys.RefusesUnit 0 :=
        or_iff_right fun h => some_ne_none q h.2
      rw [PortItem.read, if_congr hallow rfl rfl, ite_not]
      exact leaves_upper
        (v := { v with state := .PE, chassis := 0, slot := 0, ulPortS := first }) rfl hd q
  · -- two slashes and the modules behind them
    have hallow : PortItem.Allowed sys ⟨c :: s :: ms, first, last⟩ ↔ ¬sys.RefusesUnit c :=
      or_iff_right fun h => absurd h.1 (by rw [length_cons, length_cons]; omega)
    dsimp only [PortItem.run]
    rw [foldlM_fields hs, ok_bind, PortItem.read, if_congr hallow rfl rfl, ite_not]
    cases last with
    | none =>
      rw [separator_PS_comma rfl]
      split_ifs
      · exact Or.inl ⟨.null, rfl, rfl⟩
      · exact leaves_bind _ fun l => ⟨⟨rfl, hd⟩, rfl, rfl⟩
    | some q =>
      exact leaves_upper (v := { v with
        state := .PE, chassis := c, slot := s, ulPortS := first,
        sub_slot := ms.getLast?.getD v.sub_slot }) rfl hd q

theorem fields_ne_nil_of_lexPortItem {w : List UInt8} {it : PortItem}
    (h : lexPortItem w = some it) : it.fields ≠ [] := by
  rw [lexPortItem, filter_eq_some_iff] at h
  exact of_decide_eq_true h.2

variable (turns sys) in
theorem leaves_piece (hv : v.Ready) {w : List UInt8} (hc : comma ∉ w) :
    Leaves (portlistRun turns sys v (w ++ [comma]))
      (readPiece turns sys (v.sub_slot, v.ulInterfaceList) w) := by
  rw [portlistRun_item hv hc, readPiece]
  cases hw : lexPortItem w with
  | none => exact Or.inl ⟨.null, rfl, rfl⟩
  | some it => exact leaves_run hv (fields_ne_nil_of_lexPortItem hw)

theorem leaves_pieces (hv : v.Ready) {ws : List (List UInt8)} (hc : ∀ w ∈ ws, comma ∉ w) :
    Leaves (portlistRun turns sys v (ws.flatMap (· ++ [comma])))
      (ws.foldlM (readPiece turns sys) (v.sub_slot, v.ulInterfaceList)) := by
  induction ws generalizing v with
  | nil => exact Or.inr ⟨v, rfl, hv, rfl⟩
  | cons w ws ih =>
    rw [flatMap_cons, portlistRun_append, foldlM_cons]
    rcases leaves_piece turns sys hv (hc w mem_cons_self) with
      ⟨e, hrun, hrd⟩ | ⟨v', hrun, hr, hrd⟩
    · rw [hrun, hrd]
      exact Or.inl ⟨e, rfl, rfl⟩
    · rw [hrun, hrd]
      exact ih hr fun w h => hc w (mem_cons_of_mem _ h)

theorem portlistWithin_eq (turns : ℕ) (sys : System) (portlist : List UInt8) :
    portlistWithin turns sys portlist =
      portlistResult
        (((portlist.splitOn comma).foldlM (readPiece turns sys) (0, [])).map Prod.snd) := by
  have hla : Leaves (portlistRun turns sys .init (portlist ++ [comma]))
      ((portlist.splitOn comma).foldlM (readPiece turns sys) (0, [])) := by
    rw [← flatMap_splitOn_comma]
    exact leaves_pieces (v := .init) ⟨rfl, rfl⟩ fun w hw => (splitOn_pieces hw).1
  rw [portlistWithin]
  rcases hla with ⟨e, hrun, hrd⟩ | ⟨v, hrun, -, hrd⟩
  all_goals
    rw [hrun, hrd]
    rfl

end

end Chanos.Netif

import Chanos.Lib.Decimal
import Chanos.Lib.Except

/-!
# Lists of numbers and ranges

A list such as `1,4-7,12` is written as items between commas, and an item is a number or two numbers
with a dash between them. `lexList` is this grammar: the text is split at its commas and each piece
at its dashes.
-/

namespace Chanos.Lib

open List Option
variable {ds : List UInt8}

def comma : UInt8 := 44

def dash : UInt8 := 45

inductive NumberItem
  | single (ds : List UInt8)
  | range (ds es : List UInt8)
  deriving DecidableEq, Repr

def IsNumeral (ds : List UInt8) : Prop := ds ≠ [] ∧ ∀ c ∈ ds, isDigit c = true

instance (ds : List UInt8) : Decidable (IsNumeral ds) := inferInstanceAs (Decidable (_ ∧ _))

def lexItem (w : List UInt8) : Option NumberItem :=
  match w.splitOn dash with
  | [ds] => if IsNumeral ds then some (.single ds) else none
  | [ds, es] => if IsNumeral ds ∧ IsNumeral es then some (.range ds es) else none
  | _ => none

def lexList (s : List UInt8) : Option (List NumberItem) := (s.splitOn comma).mapM lexItem

/-! ## The grammar -/

theorem IsNumeral.dash_notMem (h : IsNumeral ds) : dash ∉ ds := fun hme =>
  ne_of_isDigit (h.2 dash hme) (by decide) rfl

theorem IsNumeral.comma_notMem (h : IsNumeral ds) : comma ∉ ds := fun hme =>
  ne_of_isDigit (h.2 comma hme) (by decide) rfl

theorem lexItem_single (h : IsNumeral ds) : lexItem ds = some (.single ds) := by
  rw [lexItem, splitOn_eq_singleton h.dash_notMem]
  exact if_pos h

theorem lexItem_range {ds es : List UInt8} (hd : IsNumeral ds) (he : IsNumeral es) :
    lexItem (ds ++ dash :: es) = some (.range ds es) := by
  rw [lexItem, splitOn_append_cons_self_of_not_mem hd.dash_notMem,
    splitOn_eq_singleton he.dash_notMem]
  exact if_pos ⟨hd, he⟩

theorem lexItem_eq_some {w : List UInt8} {it : NumberItem} (h : lexItem w = some it) :
    (it = .single w ∧ IsNumeral w) ∨
      ∃ ds es, it = .range ds es ∧ w = ds ++ dash :: es ∧ IsNumeral ds ∧ IsNumeral es := by
  have hj : [dash].intercalate (w.splitOn dash) = w := intercalate_splitOn dash
  unfold lexItem at h
  split at h
  next ds heq =>
    rw [heq] at hj
    have hw : ds = w := by simpa using hj
    rw [ite_none_right_eq_some] at h
    obtain ⟨hn, hit⟩ := h
    subst hw
    exact Or.inl ⟨(some.inj hit).symm, hn⟩
  next ds es heq =>
    rw [heq] at hj
    have hw : ds ++ dash :: es = w := by simpa using hj
    rw [ite_none_right_eq_some] at h
    obtain ⟨hn, hit⟩ := h
    exact Or.inr ⟨ds, es, (some.inj hit).symm, hw.symm, hn⟩
  next => exact absurd h (some_ne_none it).symm

theorem flatMap_splitOn_comma (s : List UInt8) :
    (s.splitOn comma).flatMap (· ++ [comma]) = s ++ [comma] := by
  have hj : ∀ ws : List (List UInt8), ws ≠ [] →
      ws.flatMap (· ++ [comma]) = [comma].intercalate ws ++ [comma] := by
    intro ws hws
    induction ws with
    | nil => exact absurd rfl hws
    | cons w ws ih =>
      cases ws with
      | nil => simp
      | cons v vs =>
        rw [flatMap_cons, ih (cons_ne_nil v vs), intercalate_cons_cons]
        simp only [append_assoc]
  rw [hj _ (splitOn_ne_nil comma s), intercalate_splitOn]

theorem splitOn_pieces {a : UInt8} {s w : List UInt8} (h : w ∈ s.splitOn a) :
    a ∉ w ∧ ∀ c ∈ w, c ∈ s := by
  induction s generalizing w with
  | nil =>
    rw [splitOn_nil, mem_singleton] at h
    rw [h]
    exact ⟨not_mem_nil, fun c hc => hc⟩
  | cons d s ih =>
    have hrs : ∀ {u}, u ∈ s.splitOn a → a ∉ u ∧ ∀ c ∈ u, c ∈ d :: s := fun hu =>
      ⟨(ih hu).1, fun c hc => mem_cons_of_mem d ((ih hu).2 c hc)⟩
    rw [splitOn_cons_eq_if_modifyHead] at h
    obtain ⟨v, vs, hv⟩ := exists_cons_of_ne_nil (splitOn_ne_nil a s)
    split_ifs at h with hd
    · rcases mem_cons.mp h with rfl | h
      · exact ⟨not_mem_nil, fun c hc => absurd hc not_mem_nil⟩
      · exact hrs h
    · rw [hv, modifyHead_cons] at h
      rcases mem_cons.mp h with rfl | h
      · -- the first piece begins with the first character
        obtain ⟨hno, hsu⟩ := hrs (hv ▸ mem_cons_self)
        refine ⟨fun hme => ?_, fun c hc => ?_⟩
        · rcases mem_cons.mp hme with heq | hme
          · exact hd (by rw [← heq, beq_self_eq_true])
          · exact hno hme
        · rcases mem_cons.mp hc with rfl | hc
          · exact mem_cons_self
          · exact hsu c hc
      · exact hrs (hv ▸ mem_cons_of_mem v h)

theorem mapM_cons_eq_some {β γ : Type} {f : β → Option γ} {b : β} {l : List β} {r : List γ} :
    (b :: l).mapM f = some r ↔ ∃ c cs, f b = some c ∧ l.mapM f = some cs ∧ r = c :: cs := by
  cases hb : f b <;> cases hl : l.mapM f <;> simp [mapM_cons, hb, hl, eq_comm]

/-! ## The machine -/

structure NumberListReader (ε α : Type) where
  limit : ℕ
  skipsSpace : Bool
  malformed : ε
  single : α → ℕ → Except ε α
  range : α → ℕ → ℕ → Except ε α

/-- The state between two characters: the digits of the number that is being read, the first number
of a range, and what the items so far have made. -/
structure ListState (α : Type) where
  digits : List UInt8
  first : Option ℕ
  acc : α

namespace NumberListReader

variable {ε α : Type} {ds : List UInt8} {w : List UInt8}

def start (a : α) : ListState α := ⟨[], none, a⟩

variable (m : NumberListReader ε α) (s : ListState α)

def step (c : UInt8) : Except ε (ListState α) :=
  if isDigit c then
    if m.limit ≤ s.digits.length + 1 then .error m.malformed
    else .ok { s with digits := s.digits ++ [c] }
  else if m.skipsSpace && isSpace c then .ok s
  else if c = comma then
    if s.digits = [] then .error m.malformed
    else
      match s.first with
      | none => (m.single s.acc (strtoulDigits s.digits)).map start
      | some v => (m.range s.acc v (strtoulDigits s.digits)).map start
  else if c = dash then
    match s.first with
    | none =>
      if s.digits = [] then .error m.malformed
      else .ok { s with digits := [], first := some (strtoulDigits s.digits) }
    | some _ => .error m.malformed
  else .error m.malformed

def run (text : List UInt8) : Except ε (ListState α) := text.foldlM m.step s

def read (a : α) (text : List UInt8) : Except ε α :=
  (m.run (start a) (text ++ [comma])).map ListState.acc

def item (a : α) : NumberItem → Except ε α
  | .single ds => if ds.length < m.limit then m.single a (strtoulDigits ds) else .error m.malformed
  | .range ds es =>
    if ds.length < m.limit ∧ es.length < m.limit then
      m.range a (strtoulDigits ds) (strtoulDigits es)
    else .error m.malformed

variable {m}

theorem run_append (x y : List UInt8) :
    m.run s (x ++ y) = m.run s x >>= fun t => m.run t y :=
  foldlM_append

theorem run_cons (c : UInt8) (x : List UInt8) :
    m.run s (c :: x) = m.step s c >>= fun t => m.run t x :=
  foldlM_cons

theorem run_singleton (c : UInt8) : m.run s [c] = m.step s c := by
  rw [run_cons]
  exact bind_pure (m.step s c)

theorem run_digits (hds : ∀ c ∈ ds, isDigit c = true) (f : Option ℕ) (a : α) :
    m.run ⟨[], f, a⟩ ds =
      if ds = [] ∨ ds.length < m.limit then .ok ⟨ds, f, a⟩ else .error m.malformed := by
  have hrun := foldlM_push (f := m.step) (e := m.malformed) (l := [])
    (fun digits => ⟨digits, f, a⟩) (Nat.zero_le m.limit) fun l _ c hc => if_pos (hds c hc)
  rwa [length_nil, Nat.zero_add] at hrun

theorem run_numeral (hds : IsNumeral ds) (f : Option ℕ) (a : α) :
    m.run ⟨[], f, a⟩ ds =
      if ds.length < m.limit then .ok ⟨ds, f, a⟩ else .error m.malformed := by
  rw [run_digits hds.2]
  exact if_congr (or_iff_right hds.1) rfl rfl

theorem step_comma_eq (s : ListState α) :
    m.step s comma =
      if s.digits = [] then .error m.malformed
      else
        match s.first with
        | none => (m.single s.acc (strtoulDigits s.digits)).map start
        | some v => (m.range s.acc v (strtoulDigits s.digits)).map start := by
  have hsp : (m.skipsSpace && isSpace comma) = false := by
    rw [show isSpace comma = false by decide, Bool.and_false]
  rw [step, if_neg (by decide), if_neg (by rw [hsp]; decide), if_pos rfl]

theorem step_dash_eq (s : ListState α) :
    m.step s dash =
      match s.first with
      | none =>
        if s.digits = [] then .error m.malformed
        else .ok { s with digits := [], first := some (strtoulDigits s.digits) }
      | some _ => .error m.malformed := by
  have hsp : (m.skipsSpace && isSpace dash) = false := by
    rw [show isSpace dash = false by decide, Bool.and_false]
  rw [step, if_neg (by decide), if_neg (by rw [hsp]; decide), if_neg (by decide), if_pos rfl]

theorem run_item {it : NumberItem} (h : lexItem w = some it) (a : α) :
    m.run (start a) (w ++ [comma]) = (m.item a it).map start := by
  rcases lexItem_eq_some h with ⟨rfl, hw⟩ | ⟨ds, es, rfl, rfl, hd, he⟩
  · rw [run_append, start, run_numeral hw, item]
    split_ifs with hlen
    · exact (run_singleton _ comma).trans ((step_comma_eq _).trans (if_neg hw.1))
    · rfl
  · rw [append_assoc, run_append, start, run_numeral hd, item]
    by_cases hlen : ds.length < m.limit
    · rw [if_pos hlen]
      have hda : m.run ⟨ds, none, a⟩ (dash :: es ++ [comma]) =
          m.run ⟨[], some (strtoulDigits ds), a⟩ (es ++ [comma]) := by
        rw [cons_append, run_cons, step_dash_eq]
        rw [if_neg hd.1]
        rfl
      calc m.run ⟨ds, none, a⟩ (dash :: es ++ [comma])
          = m.run ⟨[], some (strtoulDigits ds), a⟩ (es ++ [comma]) := hda
        _ = _ := by
          rw [run_append, run_numeral he]
          by_cases hlen' : es.length < m.limit
          · rw [if_pos hlen', if_pos ⟨hlen, hlen'⟩]
            exact (run_singleton _ comma).trans ((step_comma_eq _).trans (if_neg he.1))
          · rw [if_neg hlen', if_neg fun hb => hlen' hb.2]
            rfl
    · rw [if_neg hlen, if_neg fun hb => hlen hb.1]
      rfl

theorem step_other (hsk : m.skipsSpace = false) {c : UInt8} (hd : isDigit c = false)
    (hc : c ≠ comma) (hda : c ≠ dash) (s : ListState α) :
    m.step s c = .error m.malformed := by
  rw [step, if_neg (by rw [hd]; decide), if_neg (by rw [hsk, Bool.false_and]; decide),
    if_neg hc, if_neg hda]

theorem digits_or_stop (w : List UInt8) : (∀ c ∈ w, isDigit c = true) ∨
    ∃ ds c rest, w = ds ++ c :: rest ∧ (∀ d ∈ ds, isDigit d = true) ∧ isDigit c = false ∧ c ∈ w := by
  have hsp : w = w.takeWhile isDigit ++ w.dropWhile isDigit := takeWhile_append_dropWhile.symm
  have hds : ∀ c ∈ w.takeWhile isDigit, isDigit c = true := fun c hc => mem_takeWhile_imp hc
  have hn := head?_dropWhile_not isDigit w
  cases hrs : w.dropWhile isDigit with
  | nil =>
    rw [hrs, append_nil] at hsp
    exact .inl (hsp ▸ hds)
  | cons c rest =>
    rw [hrs] at hsp hn
    refine .inr ⟨_, c, rest, hsp, hds, by simpa using hn, ?_⟩
    rw [hsp]
    exact mem_append_right _ mem_cons_self

theorem run_digits_append_error (hds : ∀ c ∈ ds, isDigit c = true) {f : Option ℕ} {a : α}
    {x : List UInt8} (h : m.run ⟨ds, f, a⟩ x = .error m.malformed) :
    m.run ⟨[], f, a⟩ (ds ++ x) = .error m.malformed := by
  rw [run_append, run_digits hds]
  split_ifs with hlen
  · exact h
  · rfl

theorem run_not_numeral (hsk : m.skipsSpace = false) (hcm : comma ∉ w) (hn : ¬IsNumeral w)
    {f : Option ℕ} {a : α} (hdash : ∀ ds rest, w = ds ++ dash :: rest →
      (∀ c ∈ ds, isDigit c = true) →
      m.run ⟨ds, f, a⟩ (dash :: (rest ++ [comma])) = .error m.malformed) :
    m.run ⟨[], f, a⟩ (w ++ [comma]) = .error m.malformed := by
  rcases digits_or_stop w with hds | ⟨ds, c, rest, rfl, hds, hc, hme⟩
  · -- there are only digits, so there are none
    have hni : w = [] := by
      by_contra hne
      exact hn ⟨hne, hds⟩
    rw [hni, nil_append, run_singleton]
    exact (step_comma_eq _).trans (if_pos rfl)
  rw [append_assoc]
  refine run_digits_append_error hds ?_
  by_cases hd : c = dash
  · subst hd
    exact hdash ds rest rfl hds
  · rw [cons_append, run_cons, step_other hsk hc (fun heq => hcm (heq ▸ hme)) hd]
    rfl

theorem run_second_error (hsk : m.skipsSpace = false) (hcm : comma ∉ w) (hn : ¬IsNumeral w)
    (v : ℕ) (a : α) : m.run ⟨[], some v, a⟩ (w ++ [comma]) = .error m.malformed := by
  refine run_not_numeral hsk hcm hn fun ds rest _ _ => ?_
  rw [run_cons, step_dash_eq]
  rfl

theorem run_not_item (hsk : m.skipsSpace = false) (hcm : comma ∉ w) (h : lexItem w = none)
    (a : α) : m.run (start a) (w ++ [comma]) = .error m.malformed := by
  refine run_not_numeral hsk hcm (fun hn => ?_) fun ds rest hw hds => ?_
  · rw [lexItem_single hn] at h
    exact some_ne_none _ h
  rw [run_cons, step_dash_eq]
  split_ifs with hn
  · rfl
  -- a first number, so the second one is wrong
  subst hw
  refine run_second_error hsk (fun hme => ?_) (fun hnu => ?_) (strtoulDigits ds) a
  · exact hcm (mem_append_right ds (mem_cons_of_mem dash hme))
  · rw [lexItem_range ⟨hn, hds⟩ hnu] at h
    exact some_ne_none _ h

/-! ## Whole texts -/

theorem run_items {ws : List (List UInt8)} {items : List NumberItem}
    (h : ws.mapM lexItem = some items) (a : α) :
    m.run (start a) (ws.flatMap (· ++ [comma])) = (items.foldlM m.item a).map start := by
  induction ws generalizing items a with
  | nil =>
    have hi : items = [] := (some.inj h).symm
    rw [hi]
    rfl
  | cons w ws ih =>
    obtain ⟨it, its, hit, his, rfl⟩ := mapM_cons_eq_some.mp h
    rw [flatMap_cons, run_append, run_item hit, foldlM_cons]
    cases m.item a it with
    | error e => rfl
    | ok b => exact ih his b

theorem run_not_items (hsk : m.skipsSpace = false) {ws : List (List UInt8)}
    (hc : ∀ w ∈ ws, comma ∉ w) (h : ws.mapM lexItem = none) (a : α) :
    ∃ e, m.run (start a) (ws.flatMap (· ++ [comma])) = .error e := by
  induction ws generalizing a with
  | nil => exact absurd h (some_ne_none _)
  | cons w ws ih =>
    rw [flatMap_cons, run_append]
    cases hit : lexItem w with
    | none =>
      rw [run_not_item hsk (hc w mem_cons_self) hit]
      exact ⟨m.malformed, rfl⟩
    | some it =>
      have hrs : ws.mapM lexItem = none := by
        cases hws : ws.mapM lexItem with
        | none => rfl
        | some its =>
          rw [mapM_cons, hit, hws] at h
          exact absurd h (some_ne_none _)
      rw [run_item hit]
      cases m.item a it with
      | error e => exact ⟨e, rfl⟩
      | ok b => exact ih (fun w hw => hc w (mem_cons_of_mem _ hw)) hrs b

theorem read_lexed {text : List UInt8} {items : List NumberItem}
    (h : lexList text = some items) (a : α) : m.read a text = items.foldlM m.item a := by
  rw [read, ← flatMap_splitOn_comma, run_items h]
  cases items.foldlM m.item a with
  | error e => rfl
  | ok b => rfl

theorem read_unlexed (hsk : m.skipsSpace = false) {text : List UInt8}
    (h : lexList text = none) (a : α) : ∃ e, m.read a text = .error e := by
  obtain ⟨e, he⟩ := run_not_items hsk (fun _ hw => (splitOn_pieces hw).1) h a
  refine ⟨e, ?_⟩
  rw [read, ← flatMap_splitOn_comma, he]
  rfl

end NumberListReader

end Chanos.Lib

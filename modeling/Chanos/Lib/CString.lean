import Chanos.Lib.Words
import Mathlib.Data.List.TakeWhile

/-!
# Zero-terminated strings

`cstringAt` reads a string of C from a buffer, and is `none` when there is no zero up to the end of
the buffer. `nameField` is a string in a field of fixed length that was set to zero before.
-/

namespace Chanos.Lib

open List Option Word

variable {fields : List (List UInt8)} {lengths : List ℕ} {s : CString}

abbrev CString : Type := {s : List UInt8 // (0 : UInt8) ∉ s}

namespace CString

def length (s : CString) : ℕ := s.1.length

def nonEmpty (s : CString) : Option CString := if s.length = 0 then none else some s

theorem nonEmpty_of_pos {s : CString} (h : 0 < s.length) : s.nonEmpty = some s :=
  if_neg (Nat.ne_of_gt h)

end CString

/-! ## Strings in memory -/

def cstringAt (buf : List UInt8) (off : ℕ) : Option CString :=
  if (0 : UInt8) ∈ buf.drop off then
    some ⟨(buf.drop off).takeWhile (· ≠ 0), fun h => by simpa using List.mem_takeWhile_imp h⟩
  else none

def wordAt (e : Endian) (buf : List UInt8) (off : ℕ) : Option UInt32 :=
  (load buf off 4).map fun b => ofBytes e b.toList

def nameField (n : ℕ) (s : CString) : List UInt8 := s.1 ++ List.replicate (n - s.length) 0

theorem length_nameField {n : ℕ} (h : s.length < n) : (nameField n s).length = n := by
  rw [nameField, length_append, length_replicate]
  unfold CString.length at h ⊢
  omega

theorem cstringAt_nameField {n : ℕ} (h : s.length < n) (pre post : List UInt8) {off : ℕ}
    (ho : off = pre.length) : cstringAt (pre ++ nameField n s ++ post) off = some s := by
  subst ho
  obtain ⟨k, hk⟩ : ∃ k, n - s.length = k + 1 := ⟨n - s.length - 1, by omega⟩
  have hd : (pre ++ nameField n s ++ post).drop pre.length =
      s.1 ++ 0 :: (replicate k 0 ++ post) := by
    rw [append_assoc, drop_left, nameField, hk, replicate_succ, append_assoc, cons_append]
  have ht : (s.1 ++ 0 :: (replicate k 0 ++ post)).takeWhile (· ≠ 0) = s.1 := by
    rw [takeWhile_append_of_pos]
    · rw [takeWhile_cons_of_neg (by simp), append_nil]
    · intro c hc
      refine decide_eq_true ?_
      rintro rfl
      exact s.2 hc
  unfold cstringAt
  rw [if_pos (by rw [hd]; exact mem_append_right _ mem_cons_self)]
  refine congrArg some (Subtype.ext ?_)
  change ((pre ++ nameField n s ++ post).drop pre.length).takeWhile (· ≠ 0) = s.1
  rw [hd, ht]

theorem wordAt_toBytes (e : Endian) (x : UInt32) (pre post : List UInt8) {off : ℕ}
    (ho : off = pre.length) : wordAt e (pre ++ toBytes e x ++ post) off = some x := by
  obtain ⟨b, hb⟩ : ∃ b : Bytes 4, b.toList = toBytes e x :=
    ⟨⟨toBytes e x, length_toBytes e x⟩, rfl⟩
  have hlo : load (pre ++ b.toList ++ post) (off : ℤ) 4 = some b :=
    load_append pre post b (by rw [ho])
  unfold wordAt
  rw [← hb, hlo, map_some, hb, ofBytes_toBytes]

section

variable (hlen : fields.map length = lengths)
include hlen

theorem flatten_eq_of_getElem? {k : ℕ} {f : List UInt8} (hf : fields[k]? = some f) :
    ∃ pre post, fields.flatten = pre ++ f ++ post ∧ pre.length = (lengths.take k).sum := by
  obtain ⟨hk, rfl⟩ := List.getElem?_eq_some_iff.mp hf
  refine ⟨(fields.take k).flatten, (fields.drop (k + 1)).flatten, ?_, ?_⟩
  · conv_lhs => rw [← take_append_drop k fields, drop_eq_getElem_cons hk]
    rw [flatten_append, flatten_cons, append_assoc]
  · rw [length_flatten, map_take, hlen]

theorem cstringAt_field (k : ℕ) {n : ℕ} (hf : fields[k]? = some (nameField n s)) (hs : s.length < n)
    (data : List UInt8) : cstringAt (fields.flatten ++ data) (lengths.take k).sum = some s := by
  obtain ⟨pre, post, hfl, hp⟩ := flatten_eq_of_getElem? hlen hf
  rw [hfl, append_assoc]
  exact cstringAt_nameField hs pre _ hp.symm

theorem wordAt_field (k : ℕ) {e : Endian} {x : UInt32} (hf : fields[k]? = some (toBytes e x))
    (data : List UInt8) : wordAt e (fields.flatten ++ data) (lengths.take k).sum = some x := by
  obtain ⟨pre, post, hfl, hp⟩ := flatten_eq_of_getElem? hlen hf
  rw [hfl, append_assoc]
  exact wordAt_toBytes e x pre _ hp.symm

theorem drop_flatten (data : List UInt8) : (fields.flatten ++ data).drop lengths.sum = data :=
  drop_left' (by rw [length_flatten, hlen])

end

/-! ## Strings as formats -/

def percent : UInt8 := 37

def formatNoArgs : List UInt8 → Option (List UInt8)
  | [] => some []
  | [c] => if c = percent then none else some [c]
  | c :: d :: s =>
    if c = percent then
      if d = percent then (formatNoArgs s).map (percent :: ·) else none
    else (formatNoArgs (d :: s)).map (c :: ·)

theorem formatNoArgs_of_notMem {s : List UInt8} (h : percent ∉ s) : formatNoArgs s = some s := by
  induction s using formatNoArgs.induct with
  | case1 => rfl
  | case2 | case4 | case5 => exact absurd mem_cons_self h
  | case3 c hc => rw [formatNoArgs, if_neg hc]
  | case6 c d s hc ih =>
    rw [formatNoArgs, if_neg hc, ih fun hme => h (mem_cons_of_mem _ hme), map_some]

theorem formatNoArgs_sublist {s o : List UInt8} (h : formatNoArgs s = some o) :
    o.Sublist s ∧ (percent ∈ s → o.length < s.length) := by
  induction s using formatNoArgs.induct generalizing o with
  | case1 =>
    cases h
    exact ⟨.slnil, fun hme => absurd hme not_mem_nil⟩
  | case2 =>
    rw [formatNoArgs, if_pos rfl] at h
    simp at h
  | case3 c hc =>
    rw [formatNoArgs, if_neg hc] at h
    cases h
    exact ⟨.refl _, fun hme => absurd (mem_singleton.mp hme).symm hc⟩
  | case4 s ih =>
    rw [formatNoArgs, if_pos rfl, if_pos rfl] at h
    obtain ⟨o', ho', rfl⟩ := map_eq_some_iff.mp h
    have hsu := (((ih ho').1.cons_cons percent).cons percent)
    exact ⟨hsu, fun _ => Nat.succ_lt_succ (Nat.lt_succ_of_le (ih ho').1.length_le)⟩
  | case5 d s hd =>
    rw [formatNoArgs, if_pos rfl, if_neg hd] at h
    simp at h
  | case6 c d s hc ih =>
    rw [formatNoArgs, if_neg hc] at h
    obtain ⟨o', ho', rfl⟩ := map_eq_some_iff.mp h
    obtain ⟨hsu, hlt⟩ := ih ho'
    exact ⟨hsu.cons_cons c, fun hme =>
      Nat.succ_lt_succ (hlt ((mem_cons.mp hme).resolve_left fun h => hc h.symm))⟩

theorem formatNoArgs_eq_self_iff {s : List UInt8} : formatNoArgs s = some s ↔ percent ∉ s := by
  refine ⟨fun h hme => ?_, formatNoArgs_of_notMem⟩
  exact absurd ((formatNoArgs_sublist h).2 hme) (lt_irrefl _)

theorem mem_of_mem_formatNoArgs {s o : List UInt8} (h : formatNoArgs s = some o) {c : UInt8}
    (hc : c ∈ o) : c ∈ s := (formatNoArgs_sublist h).1.subset hc

namespace CString

def format (s : CString) : Option CString :=
  (formatNoArgs s.1).pmap (fun o h => ⟨o, h⟩) fun _ ho h => s.2 (mem_of_mem_formatNoArgs ho h)

theorem format_eq_some_iff {s o : CString} : s.format = some o ↔ formatNoArgs s.1 = some o.1 := by
  unfold format
  rw [pmap_eq_some_iff]
  constructor
  · rintro ⟨a, _, ha, rfl⟩
    exact ha
  · intro h
    exact ⟨o.1, o.2, h, rfl⟩

theorem format_eq_self_iff {s : CString} : s.format = some s ↔ percent ∉ s.1 :=
  format_eq_some_iff.trans formatNoArgs_eq_self_iff

theorem length_format {s o : CString} (h : s.format = some o) : o.length ≤ s.length :=
  (formatNoArgs_sublist (format_eq_some_iff.mp h)).1.length_le

end CString

end Chanos.Lib

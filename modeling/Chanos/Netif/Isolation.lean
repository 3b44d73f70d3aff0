import Mathlib.Data.Finset.Sort

/-!
# Isolation of ports

The ports of the group are isolated from each other in hardware, pair by pair. An update of the group
visits only the ports that come or go, and what it adds for the one and takes away for the other
never meet, so all pairs of the new group are left (`isolated_iff`).
-/

namespace Chanos.Netif

open Finset

/-- Ordered pairs of ports, by their positions in the bitmaps. The hardware gets their interface
indexes from `netif_array_index_to_ifindex`, which is taken to give the members different ones. -/
abbrev Pairs : Type := Finset (ℕ × ℕ)

variable {p : ℕ × ℕ} {new old : Finset ℕ} {hw : Pairs}

def npdPortIsolateAdd (egress ingress : ℕ) (hw : Pairs) : Pairs :=
  insert (egress, ingress) hw

def npdPortIsolateDel (egress ingress : ℕ) (hw : Pairs) : Pairs :=
  hw.erase (egress, ingress)

/-- A walk over the set bits of a bitmap. -/
def pbmpIter {σ : Type} (ports : Finset ℕ) (body : σ → ℕ → σ) (s : σ) : σ :=
  (ports.sort (· ≤ ·)).foldl body s

/-- The inner loops, with what is called for the pairs of the port `array_port`. -/
def isolateEach (call : ℕ → ℕ → Pairs → Pairs) (ports : Finset ℕ)
    (array_port : ℕ) : Pairs → Pairs :=
  pbmpIter ports fun hw iter_port =>
    if iter_port = array_port then hw
    else call iter_port array_port (call array_port iter_port hw)

def islateGroupHandleInsert (new : Finset ℕ) : Pairs → Pairs :=
  pbmpIter new fun hw array_port => isolateEach npdPortIsolateAdd new array_port hw

def updateTurn (new old : Finset ℕ) (hw : Pairs) (array_port : ℕ) : Pairs :=
  if array_port ∈ new then isolateEach npdPortIsolateAdd new array_port hw
  else if array_port ∈ old then isolateEach npdPortIsolateDel old array_port hw
  else hw

def islateGroupHandleUpdate (new old : Finset ℕ) : Pairs → Pairs :=
  pbmpIter (symmDiff new old) (updateTurn new old)

structure IsolateState where
  group : Finset ℕ
  hw : Pairs

def IsolateState.first (group : Finset ℕ) : IsolateState := ⟨group, islateGroupHandleInsert group ∅⟩

def IsolateState.update (s : IsolateState) (new : Finset ℕ) : IsolateState :=
  ⟨new, islateGroupHandleUpdate new s.group s.hw⟩

def Within (p : ℕ × ℕ) (s : Finset ℕ) : Prop := p.1 ≠ p.2 ∧ p.1 ∈ s ∧ p.2 ∈ s

def Joined (p : ℕ × ℕ) (a i : ℕ) : Prop := i ≠ a ∧ (p = (a, i) ∨ p = (i, a))

theorem pbmpIter_iff {σ : Type} {body : σ → ℕ → σ} {Q : σ → Prop} {P : ℕ → Prop}
    (h : ∀ s a, Q (body s a) ↔ Q s ∨ P a) (ports : Finset ℕ) (s : σ) :
    Q (pbmpIter ports body s) ↔ Q s ∨ ∃ a ∈ ports, P a := by
  have hl : ∀ (l : List ℕ) (s : σ), Q (l.foldl body s) ↔ Q s ∨ ∃ a ∈ l, P a := by
    intro l
    induction l with
    | nil => simp
    | cons a l ih =>
      intro s
      rw [List.foldl_cons, ih, h, or_assoc, List.exists_mem_cons_iff]
  simpa [pbmpIter] using hl (ports.sort (· ≤ ·)) s

theorem mem_isolateEach_add (ports : Finset ℕ) (a : ℕ) (hw : Pairs) :
    p ∈ isolateEach npdPortIsolateAdd ports a hw ↔ p ∈ hw ∨ ∃ i ∈ ports, Joined p a i := by
  refine pbmpIter_iff (Q := (p ∈ ·)) (fun hw i => ?_) ports hw
  unfold npdPortIsolateAdd Joined
  grind

theorem notMem_isolateEach_del (ports : Finset ℕ) (a : ℕ) (hw : Pairs) :
    p ∉ isolateEach npdPortIsolateDel ports a hw ↔ p ∉ hw ∨ ∃ i ∈ ports, Joined p a i := by
  refine pbmpIter_iff (Q := (p ∉ ·)) (fun hw i => ?_) ports hw
  unfold npdPortIsolateDel Joined
  grind

theorem mem_handleInsert : p ∈ islateGroupHandleInsert new ∅ ↔ Within p new := by
  refine (pbmpIter_iff (Q := (p ∈ ·)) (fun hw a => mem_isolateEach_add new a hw) new ∅).trans ?_
  unfold Joined Within
  grind

/-! ## Updates

What an update adds is within the new group, and what it takes away is not. -/

theorem mem_updateTurn (hn : Within p new) (hw : Pairs) (a : ℕ) :
    p ∈ updateTurn new old hw a ↔ p ∈ hw ∨ p.1 = a ∨ p.2 = a := by
  have ha := mem_isolateEach_add (p := p) new a hw
  have hd := notMem_isolateEach_del (p := p) old a hw
  unfold updateTurn
  unfold Joined Within at *
  grind

theorem notMem_updateTurn (hn : ¬Within p new) (hw : Pairs) (a : ℕ) :
    p ∉ updateTurn new old hw a ↔ p ∉ hw ∨ a ∉ new ∧ a ∈ old ∧ ∃ i ∈ old, Joined p a i := by
  have ha := mem_isolateEach_add (p := p) new a hw
  have hd := notMem_isolateEach_del (p := p) old a hw
  unfold updateTurn
  unfold Joined Within at *
  grind

theorem mem_handleUpdate (h : p ∈ hw ↔ Within p old) :
    p ∈ islateGroupHandleUpdate new old hw ↔ Within p new := by
  by_cases hn : Within p new
  · refine iff_of_true ((pbmpIter_iff (Q := (p ∈ ·)) (mem_updateTurn hn) _ hw).mpr ?_) hn
    simp only [mem_symmDiff, h]
    unfold Within at *
    grind
  · refine iff_of_false ((pbmpIter_iff (Q := (p ∉ ·)) (notMem_updateTurn hn) _ hw).mpr ?_) hn
    simp only [mem_symmDiff, h]
    unfold Within Joined at *
    grind

theorem IsolateState.isolated {s : IsolateState} (h : ∀ p, p ∈ s.hw ↔ Within p s.group)
    (groups : List (Finset ℕ)) :
    p ∈ (groups.foldl update s).hw ↔ Within p (groups.getLastD s.group) := by
  induction groups generalizing s with
  | nil => exact h p
  | cons new groups ih =>
    rw [List.getLastD_cons]
    exact ih (s := s.update new) fun p => mem_handleUpdate (h p)

/-- After any updates of the group, two ports are isolated from each other in hardware if and only if
they are different members of the last group. -/
theorem isolated_iff (group : Finset ℕ) (groups : List (Finset ℕ)) (p : ℕ × ℕ) :
    p ∈ (groups.foldl IsolateState.update (.first group)).hw ↔
      Within p (groups.getLastD group) :=
  IsolateState.isolated (fun _ => mem_handleInsert) groups

end Chanos.Netif

import Chanos.Lib.Chain

/-!
# Iteration over a list that changes

A cursor walks along a list and hands out its elements one after the other, while elements other
than the one it stands on are put in anywhere and taken out again. The elements that stay keep their
order.
-/

namespace Chanos.Lib

open List

variable {α : Type*}

def Iterating (l : List α) (cursor : Option α) (seen kept : Set α) : Prop :=
  ∃ pre post, l = pre ++ post ∧ pre.getLast? = cursor ∧ (∀ x ∈ seen, x ∈ pre) ∧
    ∀ x ∈ kept, x ∈ seen ∨ x ∈ post

namespace Iterating

variable {l l' : List α} {cursor : Option α} {seen kept : Set α} {x : α}

theorem start (l : List α) : Iterating l none ∅ {x | x ∈ l} :=
  ⟨[], l, rfl, rfl, fun _ h => absurd h (Set.notMem_empty _), fun _ h => .inr h⟩

theorem add (h : Iterating l cursor seen kept) (hl : AddedTo x l l') :
    Iterating l' cursor seen kept := by
  obtain ⟨pre, post, rfl, hla, hse, hkt⟩ := h
  obtain ⟨l₁, l₂, heq, rfl⟩ := hl
  rcases append_eq_append_iff.mp heq with ⟨m, rfl, rfl⟩ | ⟨m, rfl, rfl⟩
  · -- Somewhere behind the cursor's element.
    refine ⟨pre, m ++ x :: l₂, append_assoc .., hla, hse, fun y hy => ?_⟩
    rcases hkt y hy with hy | hy
    · exact .inl hy
    · refine .inr ?_
      rw [mem_append, mem_cons]
      exact (mem_append.mp hy).imp id .inr
  · cases m with
    | nil =>
      refine ⟨l₁, x :: post, rfl, by simpa using hla, fun y hy => by simpa using hse y hy,
        fun y hy => (hkt y hy).imp id fun hy => mem_cons_of_mem x hy⟩
    | cons a m =>
      -- Before the cursor's element, which stays the last one of its part.
      refine ⟨l₁ ++ x :: a :: m, post, by simp, ?_, fun y hy => ?_, hkt⟩
      · rw [getLast?_append_cons, getLast?_cons_cons]
        rwa [getLast?_append_cons] at hla
      · have hme := hse y hy
        rw [mem_append] at hme ⊢
        exact hme.imp id (mem_cons_of_mem x)

theorem remove (h : Iterating l cursor seen kept) (hl : AddedTo x l' l) (hx : cursor ≠ some x) :
    Iterating l' cursor (seen \ {x}) (kept \ {x}) := by
  obtain ⟨pre, post, rfl, hla, hse, hkt⟩ := h
  obtain ⟨l₁, l₂, rfl, heq⟩ := hl
  rcases append_eq_append_iff.mp heq with ⟨m, rfl, rfl⟩ | ⟨m, rfl, hm⟩
  · -- Behind the cursor.
    refine ⟨pre, m ++ l₂, append_assoc .., hla, fun y hy => hse y hy.1, fun y hy => ?_⟩
    rcases hkt y hy.1 with hse | hp
    · exact .inl ⟨hse, hy.2⟩
    · refine .inr ?_
      rw [mem_append, mem_cons] at hp
      rw [mem_append]
      exact hp.imp id fun h => h.resolve_left hy.2
  · cases m with
    | nil =>
      -- The first element behind the cursor.
      obtain rfl : x :: l₂ = post := hm
      refine ⟨l₁, l₂, rfl, by simpa using hla, fun y hy => by simpa using hse y hy.1,
        fun y hy => ?_⟩
      exact (hkt y hy.1).imp (fun h => ⟨h, hy.2⟩) fun h => (mem_cons.mp h).resolve_left hy.2
    | cons a m =>
      -- Before the cursor: something of its part is left behind the element.
      obtain ⟨rfl, rfl⟩ : x = a ∧ l₂ = m ++ post := by simpa using hm
      have hne : m ≠ [] := by
        rintro rfl
        rw [getLast?_concat] at hla
        exact hx hla.symm
      obtain ⟨b, m', rfl⟩ := exists_cons_of_ne_nil hne
      refine ⟨l₁ ++ b :: m', post, by simp, ?_, fun y hy => ?_, fun y hy => ?_⟩
      · rw [getLast?_append_cons] at hla ⊢
        rwa [getLast?_cons_cons] at hla
      · have hme := hse y hy.1
        rw [mem_append, mem_cons] at hme
        rw [mem_append]
        exact hme.imp id fun h => h.resolve_left hy.2
      · exact (hkt y hy.1).imp (fun h => ⟨h, hy.2⟩) id

theorem pre_eq {pre pre' post post' : List α} (hnd : (pre ++ post).Nodup)
    (heq : pre ++ post = pre' ++ post') (hla : pre.getLast? = pre'.getLast?) : pre = pre' := by
  -- Two places of the cursor's element `c` would make it occur twice.
  have hnt : ∀ {c : α} {q r : List α}, (q ++ c :: r).Nodup → c ∉ q := fun hn hc =>
    (nodup_append.mp hn).2.2 _ hc _ mem_cons_self rfl
  cases hc : pre.getLast? with
  | none => rw [getLast?_eq_none_iff.mp hc, getLast?_eq_none_iff.mp (hla.symm.trans hc)]
  | some c =>
    obtain ⟨p, rfl⟩ := getLast?_eq_some_iff.mp hc
    obtain ⟨p', rfl⟩ := getLast?_eq_some_iff.mp (hla.symm.trans hc)
    rw [append_assoc, append_assoc, singleton_append, singleton_append] at heq
    rw [append_assoc, singleton_append] at hnd
    rcases append_eq_append_iff.mp heq with ⟨m, rfl, hm⟩ | ⟨m, rfl, hm⟩
    · cases m with
      | nil => rw [append_nil]
      | cons a m =>
        obtain rfl : c = a := (cons.inj hm).1
        exact absurd (mem_append_right _ mem_cons_self) (hnt (heq ▸ hnd))
    · cases m with
      | nil => rw [append_nil]
      | cons a m =>
        obtain rfl : c = a := (cons.inj hm).1
        exact absurd (mem_append_right _ mem_cons_self) (hnt hnd)

theorem next {pre post : List α} (h : Iterating (pre ++ x :: post) cursor seen kept)
    (hn : (pre ++ x :: post).Nodup) (hla : pre.getLast? = cursor) :
    x ∉ seen ∧ Iterating (pre ++ x :: post) (some x) (insert x seen) kept := by
  obtain ⟨pre', post', heq, hla', hse, hkt⟩ := h
  obtain rfl := pre_eq hn heq (hla.trans hla'.symm)
  obtain rfl : x :: post = post' := append_cancel_left heq
  refine ⟨fun hx => ?_, pre ++ [x], post, by simp, getLast?_concat, fun y hy => ?_, fun y hy => ?_⟩
  · exact (nodup_append.mp hn).2.2 x (hse x hx) x mem_cons_self rfl
  · rw [mem_append, mem_singleton]
    exact (Set.mem_insert_iff.mp hy).elim .inr fun hy => .inl (hse y hy)
  · rcases hkt y hy with hy | hy
    · exact .inl (Set.mem_insert_of_mem x hy)
    · rcases mem_cons.mp hy with rfl | hy
      · exact .inl (Set.mem_insert y seen)
      · exact .inr hy

theorem subset_of_end (h : Iterating l cursor seen kept) (hn : l.Nodup)
    (hla : l.getLast? = cursor) : kept ⊆ seen := by
  obtain ⟨pre, post, rfl, hla', -, hkt⟩ := h
  have hp : pre = pre ++ post := pre_eq hn (append_nil _).symm (hla'.trans hla.symm)
  obtain rfl : post = [] := self_eq_append_right.mp hp
  exact fun x hx => (hkt x hx).resolve_right not_mem_nil

end Iterating

end Chanos.Lib

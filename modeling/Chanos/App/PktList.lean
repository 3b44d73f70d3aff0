import Chanos.Lib.Trace
import Mathlib.Data.Int.Notation

/-!
# The packet queue between two threads

`npd_app_msg_dispatch` puts messages into a list, and the thread `npd_app_msg_hander` takes them
out. A message that is added after the consumer has found the list empty, and before it waits, lies
in the list while the consumer waits; there is no other way to that (`pktList_iff`). The order of
the messages and the mutex are right in all runs (`pktRun_safe`).
-/

namespace Chanos.App

open Lib Option List False

structure PktMsg (α : Type) where
  buff : α
  len : ℤ
  deriving DecidableEq

inductive PktThread
  | producer
  | consumer
  deriving DecidableEq

inductive ProducerAt (α : Type)
  | idle
  | calling (m : PktMsg α)
  | holding (m : PktMsg α)
  | added
  deriving DecidableEq

inductive ConsumerAt (α : Type)
  | top
  | entered
  | waiting
  | signaled
  | inside
  | removed (buff : Option (PktMsg α))
  | handling (m : PktMsg α)
  | handled
  deriving DecidableEq

/-- The list, who has its mutex, and where the threads are. -/
structure PktState (α : Type) where
  list : List (PktMsg α)
  mutex : Option PktThread
  producer : ProducerAt α
  consumer : ConsumerAt α
  enqueued : List (PktMsg α)
  delivered : List (PktMsg α)
  unheard : Bool
  deriving DecidableEq

open PktState

/-- A call of `npd_app_msg_dispatch`, a step of it, with whether `malloc` succeeds where it is
called, and a step of `npd_app_msg_hander`. -/
inductive PktAction (α : Type)
  | dispatch (m : PktMsg α)
  | producer (allocated : Bool)
  | consumer

variable {α : Type}

def PktState.init : PktState α := ⟨[], none, .idle, .top, [], [], false⟩

variable (s : PktState α)

def PktState.signal : PktState α :=
  match s.consumer with
  | .waiting => { s with consumer := .signaled }
  | _ => { s with unheard := true }

def npdPktListAddTail (m : PktMsg α) (allocated : Bool) : PktState α :=
  if allocated then
    { s with list := s.list ++ [m], enqueued := s.enqueued ++ [m] }.signal
  else s

def npdPktListRemoveHead : PktState α :=
  match s.list with
  | [] => { s with consumer := .removed none, unheard := false }
  | m :: list => { s with consumer := .removed (some m), list := list }

def npdAppMsgDispatch (allocated : Bool) : Option (PktState α) :=
  match s.producer with
  | .idle => none
  | .calling m =>
    if s.mutex = none then some { s with mutex := some .producer, producer := .holding m } else none
  | .holding m => some { npdPktListAddTail s m allocated with producer := .added }
  | .added => some { s with mutex := none, producer := .idle }

def npdAppMsgHander : Option (PktState α) :=
  match s.consumer with
  | .top => if s.mutex = none then some { s with mutex := some .consumer, consumer := .entered } else none
  | .entered => some { s with mutex := none, consumer := .waiting }
  | .waiting => none
  | .signaled =>
    if s.mutex = none then some { s with mutex := some .consumer, consumer := .inside } else none
  | .inside => some (npdPktListRemoveHead s)
  | .removed none => some { s with mutex := none, consumer := .top }
  | .removed (some m) => some { s with mutex := none, consumer := .handling m }
  | .handling m => some { s with delivered := s.delivered ++ [m], consumer := .handled }
  | .handled =>
    if s.mutex = none then some { s with mutex := some .consumer, consumer := .inside } else none

def PktAction.apply : PktAction α → Option (PktState α)
  | .dispatch m =>
    match s.producer with
    | .idle => some (if m.len < 0 then s else { s with producer := .calling m })
    | _ => none
  | .producer allocated => npdAppMsgDispatch s allocated
  | .consumer => npdAppMsgHander s

def PktStep (a : PktAction α) (s' : PktState α) : Prop := a.apply s = some s'

def PktState.inFlight : List (PktMsg α) :=
  match s.consumer with
  | .removed (some m) => [m]
  | .handling m => [m]
  | _ => []

def PktState.Fifo : Prop := s.delivered ++ s.inFlight ++ s.list = s.enqueued

def PktState.Stuck : Prop := s.consumer = .waiting ∧ s.list ≠ []

def Heard (a : PktAction α) : Prop :=
  a = .consumer → s.consumer = .entered → s.unheard = false

def ConsumerAt.FoundEmpty : ConsumerAt α → Prop
  | .top => True
  | .entered => True
  | .waiting => True
  | .removed none => True
  | _ => False

structure PktInvariant (s : PktState α) : Prop where
  fifo : s.Fifo
  found_empty : s.consumer.FoundEmpty → (s.list = [] ↔ s.unheard = false)

/-! ## Steps -/

section

variable {s s' : PktState α} {a : PktAction α}

theorem PktState.signal_cases (s : PktState α) :
    (s.consumer = .waiting ∧ s.signal = { s with consumer := .signaled }) ∨
      (s.consumer ≠ .waiting ∧ s.signal = { s with unheard := true }) := by
  unfold signal
  split
  next h => exact Or.inl ⟨h, rfl⟩
  next h => exact Or.inr ⟨h, rfl⟩

theorem producer_cases (ha : a ≠ .consumer) (h : PktStep s a s') :
    (s'.list = s.list ∧ s'.consumer = s.consumer ∧ s'.enqueued = s.enqueued ∧
        s'.delivered = s.delivered ∧ s'.unheard = s.unheard) ∨
      ∃ m, s'.list = s.list ++ [m] ∧ s'.enqueued = s.enqueued ++ [m] ∧
        s'.delivered = s.delivered ∧
        (s.consumer = .waiting ∧ s'.consumer = .signaled ∧ s'.unheard = s.unheard ∨
          s.consumer ≠ .waiting ∧ s'.consumer = s.consumer ∧ s'.unheard = true) := by
  cases a with
  | consumer => exact absurd rfl ha
  | dispatch m =>
    left
    change (match s.producer with
      | .idle => some (if m.len < 0 then s else { s with producer := .calling m })
      | _ => none) = some s' at h
    split at h
    next =>
      split_ifs at h
      all_goals
        cases h
        exact ⟨rfl, rfl, rfl, rfl, rfl⟩
    next => cases h
  | producer allocated =>
    change npdAppMsgDispatch s allocated = some s' at h
    unfold npdAppMsgDispatch at h
    cases hp : s.producer with rw [hp] at h
    | idle => cases h
    | calling m =>
      obtain ⟨-, hs'⟩ := ite_none_right_eq_some.mp h
      cases hs'
      exact Or.inl ⟨rfl, rfl, rfl, rfl, rfl⟩
    | added =>
      cases h
      exact Or.inl ⟨rfl, rfl, rfl, rfl, rfl⟩
    | holding m =>
      cases h
      cases allocated with
      | false => exact Or.inl ⟨rfl, rfl, rfl, rfl, rfl⟩
      | true =>
        refine Or.inr ⟨m, ?_⟩
        rcases signal_cases
          { s with list := s.list ++ [m], enqueued := s.enqueued ++ [m] } with ⟨hc, hs⟩ | ⟨hc, hs⟩
        · rw [npdPktListAddTail, if_pos rfl, hs]
          exact ⟨rfl, rfl, rfl, Or.inl ⟨hc, rfl, rfl⟩⟩
        · rw [npdPktListAddTail, if_pos rfl, hs]
          exact ⟨rfl, rfl, rfl, Or.inr ⟨hc, rfl, rfl⟩⟩

theorem inFlight_congr (h : s'.consumer = s.consumer) : s'.inFlight = s.inFlight := by
  rw [inFlight, inFlight, h]

section

variable (hi : PktInvariant s)
include hi

theorem PktInvariant.producer (ha : a ≠ .consumer)
    (h : PktStep s a s') : PktInvariant s' := by
  obtain ⟨hf, hem⟩ := hi
  rcases producer_cases ha h with ⟨hl, hc, he, hd, hu⟩ | ⟨m, hl, he, hd, hsi⟩
  · refine ⟨?_, ?_⟩
    · rw [Fifo, hd, inFlight_congr hc, hl, he, hf]
    · rw [hc, hl, hu]
      exact hem
  · rcases hsi with ⟨hc, hc', -⟩ | ⟨-, hc', hu⟩
    · -- the signal wakes the consumer up
      have hfl : s'.inFlight = s.inFlight := by rw [inFlight, inFlight, hc, hc']
      refine ⟨?_, ?_⟩
      · rw [Fifo, hd, hfl, hl, he, ← append_assoc, hf]
      · rw [hc']
        exact elim
    · -- the signal is not heard
      refine ⟨?_, fun _ => ?_⟩
      · rw [Fifo, hd, inFlight_congr hc', hl, he, ← append_assoc, hf]
      · rw [hl, hu]
        exact ⟨fun h => absurd h (append_ne_nil_of_right_ne_nil _ (cons_ne_nil m [])),
          nofun⟩

theorem PktInvariant.consumer (h : npdAppMsgHander s = some s') :
    PktInvariant s' ∧ (s'.consumer = .waiting ↔ s.consumer = .entered) ∧
      (s.consumer = .entered → s'.list = s.list) := by
  obtain ⟨hf, he⟩ := hi
  unfold Fifo inFlight at hf
  unfold npdAppMsgHander at h
  cases hc : s.consumer with
  | top =>
    rw [hc] at h hf he
    obtain ⟨-, hs'⟩ := ite_none_right_eq_some.mp h
    cases hs'
    exact ⟨⟨hf, he⟩, by simp, fun _ => rfl⟩
  | entered =>
    rw [hc] at h hf he
    cases h
    exact ⟨⟨hf, he⟩, by simp, fun _ => rfl⟩
  | waiting =>
    rw [hc] at h
    cases h
  | signaled | handled =>
    rw [hc] at h hf
    obtain ⟨-, hs'⟩ := ite_none_right_eq_some.mp h
    cases hs'
    exact ⟨⟨hf, elim⟩, by simp, fun _ => rfl⟩
  | inside =>
    rw [hc] at h hf
    cases h
    unfold npdPktListRemoveHead
    cases hl : s.list with rw [hl] at hf
    | nil => exact ⟨⟨hf, fun _ => ⟨fun _ => rfl, fun _ => rfl⟩⟩, by simp, fun _ => rfl⟩
    | cons m list =>
      refine ⟨⟨?_, elim⟩, by simp, by simp⟩
      change s.delivered ++ [m] ++ list = s.enqueued
      rw [← hf, append_nil, append_assoc, singleton_append]
  | removed buff =>
    rw [hc] at h hf he
    cases buff with
    | none =>
      cases h
      exact ⟨⟨hf, he⟩, by simp, fun _ => rfl⟩
    | some m =>
      cases h
      exact ⟨⟨hf, elim⟩, by simp, fun _ => rfl⟩
  | handling m =>
    rw [hc] at h hf
    cases h
    refine ⟨⟨?_, elim⟩, by simp, fun _ => rfl⟩
    change s.delivered ++ [m] ++ [] ++ s.list = s.enqueued
    rw [append_nil]
    exact hf

theorem PktInvariant.step (h : PktStep s a s') : PktInvariant s' := by
  by_cases ha : a = .consumer
  · subst ha
    exact (hi.consumer h).1
  · exact hi.producer ha h

theorem PktInvariant.not_stuck_iff (hs : ¬s.Stuck)
    (h : PktStep s a s') : ¬s'.Stuck ↔ Heard s a := by
  by_cases ha : a = .consumer
  · subst ha
    obtain ⟨-, hwt, hli⟩ := hi.consumer h
    constructor
    · intro hsk _ hc
      have he := hi.found_empty (by rw [hc]; trivial)
      by_contra hu
      refine hsk ⟨hwt.mpr hc, fun hn => hu (he.mp ?_)⟩
      rw [← hli hc, hn]
    · rintro hh ⟨hc', hne⟩
      have hc : s.consumer = .entered := hwt.mp hc'
      have he := hi.found_empty (by rw [hc]; trivial)
      exact hne ((hli hc).trans (he.mpr (hh rfl hc)))
  · refine ⟨fun _ heq => absurd heq ha, fun _ hsk => ?_⟩
    rcases producer_cases ha h with ⟨hl, hc, -⟩ | ⟨m, -, -, -, hsi⟩
    · exact hs ⟨hc.symm.trans hsk.1, hl ▸ hsk.2⟩
    -- a signal wakes up a consumer that waits
    rcases hsi with ⟨-, hc', -⟩ | ⟨hc, hc', -⟩
    · rw [hsk.1] at hc'
      cases hc'
    · exact hc (hc'.symm.trans hsk.1)

end

end

theorem pktInvariant_init : PktInvariant (.init : PktState α) :=
  ⟨rfl, fun _ => ⟨fun _ => rfl, fun _ => rfl⟩⟩

section

variable {tr : List (PktAction α × PktState α)} (hrun : Along PktStep .init tr)
include hrun

/-- **In which runs the queue delivers.** In a run, the messages are always handed over in their
order and the consumer never waits while there are messages and no signal, exactly if it never
begins to wait after a message was added since it found the list empty. -/
theorem pktList_iff :
    Along (fun _ _ s' => s'.Fifo ∧ ¬s'.Stuck) .init tr ↔ Along (fun s a _ => Heard s a) .init tr := by
  have hinit : PktInvariant (.init : PktState α) ∧ ¬(.init : PktState α).Stuck :=
    ⟨pktInvariant_init, fun h => h.2 rfl⟩
  have hsteps : ∀ (s : PktState α) a s', PktStep s a s' → PktInvariant s ∧ ¬s.Stuck →
      ((s'.Fifo ∧ ¬s'.Stuck) ↔ Heard s a) ∧ (Heard s a → PktInvariant s' ∧ ¬s'.Stuck) := by
    intro s a s' hstep h
    have hinv := h.1.step hstep
    have hiff := h.1.not_stuck_iff h.2 hstep
    exact ⟨(and_iff_right hinv.fifo).trans hiff, fun hheard => ⟨hinv, hiff.mpr hheard⟩⟩
  exact along_step_iff_of_invariant hsteps hrun hinit

end

def pktRun (s : PktState α) : List (PktAction α) → List (PktAction α × PktState α)
  | [] => []
  | a :: as =>
    match a.apply s with
    | none => []
    | some s' => (a, s') :: pktRun s' as

theorem along_pktRun (as : List (PktAction α)) : Along PktStep s (pktRun s as) := by
  induction as generalizing s with
  | nil => trivial
  | cons a as ih =>
    unfold pktRun
    cases h : a.apply s with
    | none => trivial
    | some s' => exact ⟨h, ih s'⟩

/-- A message that comes after the consumer waits. -/
theorem pktList_signaled :
    Along PktStep .init (pktRun (.init : PktState ℕ)
        [.consumer, .consumer, .dispatch ⟨7, 1⟩, .producer true, .producer true, .producer true]) ∧
      (Along (fun _ _ s' => s'.Fifo ∧ ¬s'.Stuck) .init (pktRun (.init : PktState ℕ)
          [.consumer, .consumer, .dispatch ⟨7, 1⟩, .producer true, .producer true, .producer true]) ↔
        Along (fun s a _ => Heard s a) .init (pktRun (.init : PktState ℕ)
          [.consumer, .consumer, .dispatch ⟨7, 1⟩, .producer true, .producer true,
            .producer true])) :=
  ⟨along_pktRun _ _, pktList_iff (along_pktRun _ _)⟩

/-- A message that comes before the consumer waits: the consumer has the lock only after the
message was added, and then waits with the message in the list. -/
theorem pktList_unheard :
    ∃ s : PktState ℕ, s.Stuck ∧
      (pktRun .init [.dispatch ⟨7, 1⟩, .producer true, .producer true, .producer true,
        .consumer, .consumer]).getLast?.map Prod.snd = some s :=
  ⟨⟨[⟨7, 1⟩], none, .idle, .waiting, [⟨7, 1⟩], [], true⟩, ⟨rfl, by decide⟩, by decide⟩

/-! ## The mutex -/

def PktState.Inside : PktThread → Prop
  | .producer => (∃ m, s.producer = .holding m) ∨ s.producer = .added
  | .consumer => s.consumer = .entered ∨ s.consumer = .inside ∨ ∃ buff, s.consumer = .removed buff

def PktState.Exclusive : Prop := ∀ thread, s.Inside thread ↔ s.mutex = some thread

def PktAction.thread : PktAction α → PktThread
  | .dispatch _ | .producer _ => .producer
  | .consumer => .consumer

/-- A thread has a step, or the producer has nothing to do and the consumer waits. -/
def PktState.GoesOn : Prop :=
  s.producer = .idle ∧ s.consumer = .waiting ∨ (npdAppMsgDispatch s true).isSome = true ∨
    (npdAppMsgHander s).isSome = true

section

variable {s s' : PktState α} {a : PktAction α} (hx : s.Exclusive)
include hx

theorem PktState.Exclusive.step (h : PktStep s a s') :
    s'.Exclusive ∧ (s'.list = s.list ∨ s.mutex = some a.thread) := by
  have hp := hx .producer
  have hc := hx .consumer
  unfold PktStep PktAction.apply npdAppMsgDispatch npdAppMsgHander npdPktListAddTail
    npdPktListRemoveHead signal at h
  unfold Exclusive
  unfold Inside at *
  constructor
  · rintro (_ | _) <;> grind
  · unfold PktAction.thread
    grind

theorem PktState.Exclusive.goesOn : s.GoesOn := by
  unfold GoesOn npdAppMsgDispatch npdAppMsgHander
  cases hm : s.mutex with
  | none =>
    -- nobody is inside, so a thread that wants the mutex gets it
    have hp := mt (hx .producer).mp (by simp [hm])
    have hc := mt (hx .consumer).mp (by simp [hm])
    unfold Inside at hp hc
    cases hpr : s.producer <;> cases hco : s.consumer <;> simp_all
  | some thread =>
    have hin := (hx thread).mpr hm
    cases thread with
    | producer =>
      obtain ⟨m, hpr⟩ | hpr := hin <;> simp [hpr]
    | consumer =>
      obtain hco | hco | ⟨_ | m, hco⟩ := hin <;> simp [hco]

end

/-- **The list and its mutex.** In every run, what was put in the list is there or was taken, once and
in order, only the thread that has the mutex changes the list, and the threads stop only when the
producer has nothing to do and the consumer waits, which it may do beside a list with messages. -/
theorem pktRun_safe (as : List (PktAction α)) :
    Along (fun s a s' => s'.Fifo ∧ (s'.list = s.list ∨ s.mutex = some a.thread) ∧ s'.GoesOn) .init
      (pktRun .init as) := by
  have hinit : (.init : PktState α).Exclusive := by
    rintro (_ | _) <;> simp [Inside, PktState.init]
  refine along_of_invariant (fun s a s' hst (h : PktInvariant s ∧ s.Exclusive) => ?_)
    (along_pktRun _ as) ⟨pktInvariant_init, hinit⟩
  obtain ⟨hi, hx⟩ := h
  obtain ⟨hx', hl⟩ := hx.step hst
  exact ⟨⟨(hi.step hst).fifo, hl, hx'.goesOn⟩, hi.step hst, hx'⟩

end Chanos.App

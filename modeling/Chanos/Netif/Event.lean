import Mathlib.Data.Int.Notation
import Mathlib.Data.List.Basic

/-!
# The delivery of interface events

A handler of an interface event may raise further events; they are stored in a list, and the
outermost call tells the notifiers about one after the other. Every event reaches every notifier
once and in the order in which the events were raised, but not always with its own data
(`netifEvents_delivered_iff`).
-/

namespace Chanos.Netif

open List

inductive EventType
  | event
  | relate
  deriving DecidableEq

def EventType.Immediate : EventType → ℕ → Prop
  | .event, code => code = 6 ∨ code = 8
  | .relate, code => code = 1

structure NetifEvent where
  event_type : EventType
  event : ℕ
  netif_index : UInt32
  son_index : UInt32
  stored : ¬event_type.Immediate event

structure Raised (D : Type*) extends NetifEvent where
  private_data : D
  len : ℤ

open Raised

structure Notifier where
  netif_event_handle_f : Bool
  netif_relate_handle_f : Bool

def Notifier.handles (n : Notifier) : EventType → Bool
  | .event => n.netif_event_handle_f
  | .relate => n.netif_relate_handle_f

variable {D : Type*}

structure HandlerArgs (D : Type*) where
  notifier : ℕ
  event : NetifEvent
  private_data : D
  len : ℤ

/-- `event_list_head`, with what the handlers will raise, one list for each call of a handler, and the
records of the calls of handlers and of the events raised. -/
structure EventState (D : Type*) where
  event_list : List NetifEvent
  handlers : List (List (Raised D))
  calls : List (HandlerArgs D)
  raised : List (Raised D)

open EventState

/-- A handler is called. -/
def EventState.call (s : EventState D) (args : HandlerArgs D) : EventState D where
  event_list := s.event_list ++ (s.handlers.headD []).map toNetifEvent
  handlers := s.handlers.tail
  calls := s.calls ++ [args]
  raised := s.raised ++ s.handlers.headD []

section

variable (notifiers : List Notifier) (private_data : D) (len : ℤ)

def EventState.tell (s : EventState D) (e : NetifEvent) : EventState D :=
  notifiers.zipIdx.foldl
    (fun s n => if n.1.handles e.event_type then s.call ⟨n.2, e, private_data, len⟩ else s) s

def drain : ℕ → EventState D → Option (EventState D)
  | 0, _ => none
  | fuel + 1, s =>
    match s.event_list with
    | [] => some s
    | e :: _ =>
      let s' := s.tell notifiers private_data len e
      drain fuel { s' with event_list := s'.event_list.tail }

end

def netifNotifyOut (notifiers : List Notifier) (fuel : ℕ) (s : EventState D) (r : Raised D) :
    Option (EventState D) :=
  let s' := { s with event_list := s.event_list ++ [r.toNetifEvent], raised := s.raised ++ [r] }
  if s.event_list ≠ [] then some s'
  else drain notifiers r.private_data r.len fuel s'

/-! ## What is delivered -/

def receivers (notifiers : List Notifier) (t : EventType) : List ℕ :=
  (notifiers.zipIdx.filter fun n => n.1.handles t).map Prod.snd

section

variable {notifiers : List Notifier} {private_data : D} {len : ℤ} {s : EventState D}

def toldOf (notifiers : List Notifier) (private_data : D) (len : ℤ) (e : NetifEvent) :
    List (HandlerArgs D) :=
  (receivers notifiers e.event_type).map fun n => ⟨n, e, private_data, len⟩

theorem foldl_call (l : List (HandlerArgs D)) (s : EventState D) :
    l.foldl call s =
      ⟨s.event_list ++ (s.handlers.take l.length).flatten.map toNetifEvent,
        s.handlers.drop l.length, s.calls ++ l,
        s.raised ++ (s.handlers.take l.length).flatten⟩ := by
  induction l generalizing s with
  | nil => simp
  | cons args l ih =>
    rw [foldl_cons, ih, call]
    cases s.handlers <;> simp

theorem tell_eq (e : NetifEvent) :
    s.tell notifiers private_data len e =
      (toldOf notifiers private_data len e).foldl call s := by
  rw [EventState.tell, toldOf, receivers, map_map, foldl_map, foldl_filter]
  rfl

theorem drain_spec {done todo : List (Raised D)} {fuel : ℕ}
    (hli : s.event_list = todo.map toNetifEvent) (hr : s.raised = done ++ todo)
    (hc : s.calls = done.flatMap fun r => toldOf notifiers private_data len r.toNetifEvent)
    (hf : todo.length + s.handlers.flatten.length < fuel) :
    ∃ s', drain notifiers private_data len fuel s = some s' ∧ s'.event_list = [] ∧
      s.raised <+: s'.raised ∧
      s'.calls = s'.raised.flatMap fun r => toldOf notifiers private_data len r.toNetifEvent := by
  induction fuel generalizing s done todo with
  | zero => exact absurd hf (Nat.not_lt_zero _)
  | succ fuel ih =>
    rw [drain]
    cases todo with
    | nil =>
      rw [hli]
      refine ⟨s, rfl, hli, prefix_rfl, ?_⟩
      rw [hc, hr, append_nil]
    | cons r todo =>
      rw [hli, map_cons]
      dsimp only
      rw [tell_eq, foldl_call, hli]
      generalize ht : toldOf notifiers private_data len r.toNetifEvent = told
      -- What the handlers raise comes behind the events that are in the list.
      generalize hn : (s.handlers.take told.length).flatten = new
      have hln : new.length + (s.handlers.drop told.length).flatten.length =
          s.handlers.flatten.length := by
        rw [← hn, ← length_append, ← flatten_append, take_append_drop]
      rw [length_cons] at hf
      obtain ⟨s', hs', hni, hp, ha⟩ := @ih
        ⟨(todo ++ new).map toNetifEvent, s.handlers.drop told.length, s.calls ++ told,
          s.raised ++ new⟩ (done ++ [r]) (todo ++ new) rfl (by simp [hr])
        (by rw [hc, flatMap_append, flatMap_singleton, ht])
        (by rw [length_append]; dsimp only; omega)
      refine ⟨s', ?_, hni, (prefix_append _ _).trans hp, ha⟩
      rw [← hs', map_append]
      rfl

theorem flatMap_eq_flatMap_iff {α β : Type*} {f g : α → List β}
    (hlen : ∀ a, (f a).length = (g a).length) {l : List α} :
    l.flatMap f = l.flatMap g ↔ ∀ a ∈ l, f a = g a := by
  induction l with
  | nil => simp
  | cons a l ih =>
    rw [flatMap_cons, flatMap_cons, forall_mem_cons, ← ih]
    exact ⟨fun h => append_inj h (hlen a), fun h => congrArg₂ _ h.1 h.2⟩

theorem toldOf_eq_iff {d d' : D} {len len' : ℤ} {e : NetifEvent} :
    toldOf notifiers d len e = toldOf notifiers d' len' e ↔
      (receivers notifiers e.event_type ≠ [] → d' = d ∧ len' = len) := by
  rw [toldOf, toldOf]
  cases receivers notifiers e.event_type with
  | nil => simp
  | cons n l => simp +contextual [eq_comm]

/-- Every event reached every notifier with a handler for it once and with its own data, and all
notifiers were told about one event before the next. -/
def Delivered (notifiers : List Notifier) (s : EventState D) : Prop :=
  s.calls = s.raised.flatMap fun r => toldOf notifiers r.private_data r.len r.toNetifEvent

end

/-- **When the events are delivered with their own data.** A call that is not made by a handler
returns with all events delivered; it delivers them as they were raised exactly if those with a
receiver were raised with the data and the length of this call. -/
theorem netifEvents_delivered_iff (notifiers : List Notifier) (handlers : List (List (Raised D)))
    (r : Raised D) :
    ∃ s, netifNotifyOut notifiers (handlers.flatten.length + 2) ⟨[], handlers, [], []⟩ r = some s ∧
      s.event_list = [] ∧ [r] <+: s.raised ∧
      (Delivered notifiers s ↔ ∀ r' ∈ s.raised, receivers notifiers r'.event_type ≠ [] →
        r'.private_data = r.private_data ∧ r'.len = r.len) := by
  obtain ⟨s, hs, hnil, hprefix, hcalls⟩ := @drain_spec D notifiers r.private_data r.len
    ⟨[r.toNetifEvent], handlers, [], [r]⟩ [] [r] (handlers.flatten.length + 2) rfl rfl rfl
    (by simp only [length_singleton]; omega)
  refine ⟨s, hs, hnil, hprefix, ?_⟩
  rw [Delivered, hcalls, flatMap_eq_flatMap_iff fun r' => by simp [toldOf]]
  exact forall₂_congr fun r' _ => toldOf_eq_iff

theorem linkup_stored : ¬EventType.event.Immediate 0 := fun h => h.elim (by decide) (by decide)

def linkupEvent (netif_index : UInt32) (private_data : ℕ) : Raised ℕ :=
  ⟨⟨.event, 0, netif_index, 0, linkup_stored⟩, private_data, 4⟩

/-- The handler raises an event of its own, which is delivered with the data of the first. -/
theorem nestedEvent_wrongData :
    (netifNotifyOut [⟨true, false⟩] 3 ⟨[], [[linkupEvent 2 20]], [], []⟩ (linkupEvent 1 10)).map
        (fun s => (s.raised.map private_data, s.calls.map HandlerArgs.private_data)) =
      some ([10, 20], [10, 10]) := by
  decide

end Chanos.Netif

import Chanos.Route.Urpf
import Mathlib.Data.Finset.Basic

/-!
# The routes in hardware

The handlers of the route table program the hardware. `npd_route_dbtbl_handle_update` compares only
the flags of the two items, and a tuple that two items have is removed with the first of them, so
the hardware holds the tuples of the table as long as no call does the one or the other
(`hardware_image_iff`).
-/

namespace Chanos.Route

open Lib Function

abbrev LpmEntry : Type := UInt32 × UInt32 × UInt32 × UInt32 × UInt32 × RouteFlag

/-- What `set_LPM_TBL_Entry` and `nam_del_route_info` are given. -/
def RouteItem.lpm (r : RouteItem) : LpmEntry :=
  (r.DIP, r.nexthop, r.masklen, r.ifindex, r.rt_type, r.flag)

inductive RouteAction
  | addItem
  | delItem

def npdRouteDbOpItem (action : RouteAction) (item : RouteItem) (hw : Finset LpmEntry) :
    Finset LpmEntry :=
  match action with
  | .addItem => insert item.lpm hw
  | .delItem => hw.erase item.lpm

def npdRouteDbtblHandleInsert (newItem : RouteItem) : Finset LpmEntry → Finset LpmEntry :=
  npdRouteDbOpItem .addItem newItem

def npdRouteDbtblHandleDelete (delItem : RouteItem) : Finset LpmEntry → Finset LpmEntry :=
  npdRouteDbOpItem .delItem delItem

def npdRouteDbtblHandleUpdate (newItem oldItem : RouteItem) (hw : Finset LpmEntry) :
    Finset LpmEntry :=
  if newItem.flag ≠ oldItem.flag then
    npdRouteDbOpItem .addItem newItem (npdRouteDbOpItem .delItem oldItem hw)
  else hw

structure LpmSync where
  tbl : ℕ → Option RouteItem
  hw : Finset LpmEntry

namespace LpmSync

/-- The entry `id` of the table gets a new value, which inserts, deletes or updates an item. -/
def set (s : LpmSync) (id : ℕ) (new : Option RouteItem) : LpmSync where
  tbl := update s.tbl id new
  hw := match new, s.tbl id with
    | some newItem, none => npdRouteDbtblHandleInsert newItem s.hw
    | none, some delItem => npdRouteDbtblHandleDelete delItem s.hw
    | some newItem, some oldItem => npdRouteDbtblHandleUpdate newItem oldItem s.hw
    | none, none => s.hw

def Image (s : LpmSync) : Prop := ∀ t, t ∈ s.hw ↔ ∃ id, ∃ r ∈ s.tbl id, r.lpm = t

/-- An entry other than `id` has the tuple. -/
def Other (s : LpmSync) (id : ℕ) (t : LpmEntry) : Prop := ∃ j ≠ id, ∃ r ∈ s.tbl j, r.lpm = t

/-- The handler for the change of the entry `id` sees what the change does to the tuples. -/
def Sees (s : LpmSync) (id : ℕ) (new : Option RouteItem) : Prop :=
  ∀ old ∈ s.tbl id, match new with
    | none => ¬s.Other id old.lpm
    | some new =>
      if new.flag = old.flag then new.lpm = old.lpm ∨ s.Other id new.lpm ∧ s.Other id old.lpm
      else ¬s.Other id old.lpm

variable {s : LpmSync}

theorem image_iff (id : ℕ) :
    s.Image ↔ ∀ t, t ∈ s.hw ↔ (∃ r ∈ s.tbl id, r.lpm = t) ∨ s.Other id t := by
  refine forall_congr' fun t => iff_congr Iff.rfl ?_
  constructor
  · rintro ⟨j, hj⟩
    by_cases h : j = id
    · exact .inl (h ▸ hj)
    · exact .inr ⟨j, h, hj⟩
  · rintro (h | ⟨j, -, h⟩)
    · exact ⟨id, h⟩
    · exact ⟨j, h⟩

theorem other_set (id : ℕ) (new : Option RouteItem) (t : LpmEntry) :
    (s.set id new).Other id t ↔ s.Other id t := by
  refine exists_congr fun j => and_congr_right fun h => ?_
  simp only [set, update_of_ne h]

theorem image_set_iff (h : s.Image) (id : ℕ) (new : Option RouteItem) :
    (s.set id new).Image ↔ s.Sees id new := by
  rw [image_iff id] at h ⊢
  have ht : (s.set id new).tbl id = new := update_self ..
  simp only [ht, other_set]
  unfold set Sees
  cases ho : s.tbl id with
  | none =>
    cases new with
    | none => simpa [ho] using h
    | some new => simp [npdRouteDbtblHandleInsert, npdRouteDbOpItem, h, ho, eq_comm]
  | some old =>
    rw [ho] at h
    cases new with
    | none =>
      simp only [npdRouteDbtblHandleDelete, npdRouteDbOpItem, Finset.mem_erase, h]
      grind
    | some new =>
      have hf : new.lpm = old.lpm → new.flag = old.flag := congrArg fun t : LpmEntry => t.2.2.2.2.2
      unfold npdRouteDbtblHandleUpdate npdRouteDbOpItem
      by_cases he : new.flag = old.flag
      · simp only [he, ne_eq, not_true_eq_false, if_false, h]
        grind
      · simp only [he, ne_eq, not_false_eq_true, if_true, Finset.mem_insert, Finset.mem_erase, h]
        grind

def init : LpmSync := ⟨fun _ => none, ∅⟩

theorem image_init : init.Image := by simp [Image, init]

end LpmSync

open LpmSync

/-- The hardware has the routes of the table after every call of a run exactly if the handler of each
call sees what the call changes. -/
theorem hardware_image_iff (calls : List (ℕ × Option RouteItem)) :
    Keeps (fun s c => some (s.set c.1 c.2)) Image (fun _ _ _ => True) calls init ↔
      Meets (fun s c => some (s.set c.1 c.2)) (fun s c => s.Sees c.1 c.2) calls init :=
  keeps_iff_meets (fun s c hs => by simpa using image_set_iff hs c.1 c.2) calls image_init

/-- The route becomes a black hole (`RTN_BLACKHOLE`), and the hardware still forwards its packets. -/
theorem not_image_of_type_change :
    let r : RouteItem := ⟨0xa000000, 0, 0, 0xa000001, 8, 1, 1, false, ⟨true, false, false, false⟩⟩
    ¬((init.set 0 (some r)).set 0 (some { r with rt_type := 6 })).Image := by
  intro r
  rw [image_set_iff ((image_set_iff image_init 0 _).mpr (by simp [Sees, init]))]
  intro h
  have ho := h r (by simp [LpmSync.set])
  simp [r, RouteItem.lpm, Other, LpmSync.set, init, update_apply] at ho

end Chanos.Route

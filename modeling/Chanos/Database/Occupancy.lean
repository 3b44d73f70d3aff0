import Chanos.Database.System

/-!
# The free list of a table at work

The three allocators, the ordered free and the mutators keep the free list of a table in step with
its entries, whatever operations and messages come in whatever order.
-/

namespace Chanos.Database

open Lib

/-- In every state that a database reaches, the free list of each table is strictly increasing, its
ids are exactly those below `entry_num` whose `DB_ENTRY_EXIST` flag is clear, exactly the existing
entries have data, and `entry_use_num` counts them. -/
theorem free_list_of_reachable {host : Host} {schemas : List Schema} {s : System}
    (h : Reachable host (fun _ _ _ _ => True) schemas s) (a : AnyTable) (ha : a ∈ s.reg.tables) :
    a.table.entry_alloc_list.Pairwise (· < ·) ∧ a.table.entry_alloc_list.Nodup ∧
      (∀ id ∈ a.table.entry_alloc_list, id < a.schema.entry_num) ∧
      (∀ id < a.schema.entry_num,
        id ∈ a.table.entry_alloc_list ↔ (a.table.entries id).exist = false) ∧
      (∀ id, (a.table.entries id).real_data.isSome = true ↔ (a.table.entries id).exist = true) ∧
      a.table.entry_use_num.toNat = a.schema.entry_num - a.table.entry_alloc_list.length ∧
      a.table.entry_use_num.toNat =
        ((Finset.range a.schema.entry_num).filter
          fun id => (a.table.entries id).exist = true).card := by
  obtain ⟨-, hocc, -⟩ := h.core_invariant (fun _ _ => True) (fun _ _ => trivial)
    (fun _ _ _ _ _ _ _ _ _ _ => trivial) a ha
  have huse := hocc.use_num
  refine ⟨List.sortedLT_iff_pairwise.mp hocc.free.sorted, hocc.free.nodup, fun id hid => ?_,
    fun id hid => ?_, fun id => ?_, by omega, hocc.use_num_eq_card⟩
  · exact (hocc.mem_free.mp hid).1
  · rw [hocc.free.mem_iff, Finset.mem_range, Bool.not_eq_true]
    exact and_iff_right hid
  · rw [hocc.real_data]

def smallArray : Schema where
  name := Bytes.zero 31
  entry_num := 2
  entry_size := 1
  sync_size := 1
  sync_mode := DB_SYNC_NONE
  index_list := [.array]
  entry_num_lt := by decide
  entry_size_lt := by decide
  sync_size_le := by decide

/-- The invariant after the first insertion into a new table: one id is left. -/
theorem free_list_of_reachable_insert :
    ∃ (s : System) (a : AnyTable), a ∈ s.reg.tables ∧ a.table.entry_alloc_list = [1] ∧
      a.table.entry_use_num.toNat = a.schema.entry_num - a.table.entry_alloc_list.length := by
  let env : Env := ⟨true, false, none, fun n _ => Bytes.zero n⟩
  let op : LocalOp smallArray.entry_size := .arrayInsert 0 (Bytes.zero 1)
  let t : Table smallArray := createDbtable smallArray
  have hrun : op.run env t = .ok (op.after env t, 0) := rfl
  let s : System := ⟨⟨[⟨smallArray, op.after env t⟩], 0⟩, []⟩
  have hmem : ⟨smallArray, op.after env t⟩ ∈ s.reg.tables := List.mem_singleton_self _
  have hreach : Reachable ⟨.little, .bits32, false⟩ (fun _ _ _ _ => True) [smallArray] s :=
    .single (.localOp (k := 0) (a := ⟨smallArray, t⟩) rfl hrun trivial)
  exact ⟨s, _, hmem, rfl, (free_list_of_reachable hreach _ hmem).2.2.2.2.2.1⟩

end Chanos.Database

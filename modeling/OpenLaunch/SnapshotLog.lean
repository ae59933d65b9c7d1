import Mathlib.Order.BoundedOrder.Basic
import Mathlib.Order.Lattice
import Mathlib.Data.List.Basic

/-! # Logs with snapshots

A log of updates of a replicated document, where an update is an element of a join-semilattice with
a least element and the document is the join of the log. The order of the log and repeated updates
do not matter for the document, and a part of the log may be squashed into one snapshot. -/

namespace SnapshotLog

universe u

variable {D : Type u} [SemilatticeSup D] [OrderBot D]

/-- The document of a log: its updates are applied in turn to the empty document. -/
def merge (log : List D) : D := log.foldl (· ⊔ ·) ⊥

theorem foldl_sup_le_iff {log : List D} {a b : D} :
    log.foldl (· ⊔ ·) a ≤ b ↔ a ≤ b ∧ ∀ u ∈ log, u ≤ b := by
  induction log generalizing a with
  | nil => simp
  | cons u log ih => rw [List.foldl_cons, ih, sup_le_iff, List.forall_mem_cons, and_assoc]

/-- The document is the least upper bound of the log. -/
theorem merge_le_iff {log : List D} {b : D} : merge log ≤ b ↔ ∀ u ∈ log, u ≤ b := by
  unfold merge
  rw [foldl_sup_le_iff]
  exact and_iff_right bot_le

theorem le_merge {log : List D} {u : D} (h : u ∈ log) : u ≤ merge log :=
  merge_le_iff.mp (le_refl _) u h

/-- Everything that a log covers stays covered where the log grows. -/
theorem merge_mono {log log' : List D} (h : ∀ u ∈ log, u ∈ log') : merge log ≤ merge log' :=
  merge_le_iff.mpr fun u hu => le_merge (h u hu)

/-- The first `n` updates of a log are squashed into one. -/
def squash (n : ℕ) (log : List D) : List D := merge (log.take n) :: log.drop n

/-- **A snapshot changes nothing**: a squashed log has the same document. -/
@[simp] theorem merge_squash (n : ℕ) (log : List D) : merge (squash n log) = merge log := by
  apply le_antisymm
  · rw [merge_le_iff]
    intro u hu
    rcases List.mem_cons.mp hu with rfl | hrest
    · exact merge_mono fun v hv => List.mem_of_mem_take hv
    · exact le_merge (List.mem_of_mem_drop hrest)
  · rw [merge_le_iff]
    intro u hu
    rw [← List.take_append_drop n log, List.mem_append] at hu
    rcases hu with htake | hdrop
    · calc u ≤ merge (log.take n) := le_merge htake
        _ ≤ merge (squash n log) := le_merge (List.mem_cons_self ..)
    · exact le_merge (List.mem_cons_of_mem _ hdrop)

end SnapshotLog

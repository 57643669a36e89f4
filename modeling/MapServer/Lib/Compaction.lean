import Mathlib.Data.List.Basic
import Mathlib.Order.Monotone.Basic

namespace Lib.Compaction

variable (used : Nat → Bool) {n m i : Nat}

def kept (n : Nat) : List Nat := (List.range n).filter used

theorem mem_kept : i ∈ kept used n ↔ i < n ∧ used i = true := by
  simp [kept]

theorem kept_succ_of_used (isUsed : used n = true) : kept used (n + 1) = kept used n ++ [n] := by
  simp [kept, List.range_succ, List.filter_append, isUsed]

theorem kept_succ_of_unused (unused : used n = false) : kept used (n + 1) = kept used n := by
  simp [kept, List.range_succ, List.filter_append, unused]

theorem length_kept_le : (kept used n).length ≤ n := by
  simpa [kept] using List.length_filter_le used (List.range n)

theorem pairwise_kept : (kept used n).Pairwise (· < ·) := List.pairwise_lt_range.filter _

theorem idxOf_kept_lt (member : i ∈ kept used n) : (kept used n).idxOf i < n :=
  (List.idxOf_lt_length_of_mem member).trans_le (length_kept_le used)

theorem idxOf_kept_self (isUsed : used n = true) : (kept used (n + 1)).idxOf n = (kept used n).length := by
  have absent : n ∉ kept used n := fun member => absurd ((mem_kept used).mp member).1 (Nat.lt_irrefl n)
  rw [kept_succ_of_used used isUsed, List.idxOf_append_of_notMem absent, List.idxOf_cons_self, Nat.add_zero]

theorem idxOf_kept_succ (member : i ∈ kept used n) : (kept used (n + 1)).idxOf i = (kept used n).idxOf i := by
  cases isUsed : used n with
  | true => rw [kept_succ_of_used used isUsed, List.idxOf_append_of_mem member]
  | false => rw [kept_succ_of_unused used isUsed]

end Lib.Compaction

namespace Lib.Thinning
variable {α : Type} (far : α → α → Bool)

end Lib.Thinning

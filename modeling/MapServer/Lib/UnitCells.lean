import Mathlib.Algebra.BigOperators.Intervals
import Mathlib.Algebra.Order.Floor.Ring

/-! How much of an interval lies in the cell from an integer to the next, and sums over the cells that it touches. -/

namespace Lib.UnitCells
open Finset
variable {K : Type} [Field K] [LinearOrder K] [IsStrictOrderedRing K]

def overlap (least most : K) (cell : Int) : K := max 0 (min ((cell : K) + 1) most - max (cell : K) least)

def cells (first last : Int) : List Int := (List.range (last - first).toNat).map fun k : Nat => first + (k : Int)

variable {least most : K} {cell first last : Int} {n : Nat}

theorem mem_cells : cell ∈ cells first last ↔ first ≤ cell ∧ cell < last := by
  unfold cells
  rw [List.mem_map]
  constructor
  · rintro ⟨k, member, rfl⟩
    rw [List.mem_range] at member
    omega
  · intro inside
    refine ⟨(cell - first).toNat, ?_, by omega⟩
    rw [List.mem_range]
    omega

omit [IsStrictOrderedRing K] in
theorem overlap_nonneg : 0 ≤ overlap least most cell := le_max_left ..

theorem overlap_eq_sub (ordered : least ≤ most) (cell : Int) :
    overlap least most cell = max least (min most ((cell : K) + 1)) - max least (min most (cell : K)) := by
  have wide : (cell : K) ≤ cell + 1 := by linarith
  unfold overlap
  rcases le_total (cell : K) least with below | above
  · rw [max_eq_right below, max_eq_left ((min_le_right _ _).trans below), min_comm]
    rcases le_total (min most (cell + 1 : K)) least with short | long
    · rw [max_eq_left short, max_eq_left (by linarith), sub_self]
    · rw [max_eq_right long, max_eq_right (by linarith)]
  · rw [max_eq_left above, max_eq_right (le_min ordered (above.trans wide)), max_eq_right (le_min ordered above), min_comm]
    rcases le_total most (cell : K) with past | before
    · rw [min_eq_left past, min_eq_left (past.trans wide), max_eq_left (by linarith), sub_self]
    · rw [min_eq_right before, max_eq_right (by rw [sub_nonneg]; exact le_min before wide)]

theorem sum_overlap (low : 0 ≤ least) (ordered : least ≤ most) (high : most ≤ n) :
    ∑ x ∈ range n, overlap least most x = most - least := by
  have step (x : Nat) : overlap least most x = max least (min most ((x + 1 : Nat) : K)) - max least (min most (x : K)) := by
    rw [overlap_eq_sub ordered]
    push_cast
    rfl
  rw [sum_congr rfl fun x _ => step x, sum_range_sub fun x : Nat => max least (min most (x : K)), min_eq_left high, max_eq_right ordered,
    Nat.cast_zero, min_eq_right (low.trans ordered), max_eq_left low]

omit [Field K] [LinearOrder K] [IsStrictOrderedRing K] in
theorem sum_cells {M : Type} [AddCommMonoid M] (gain : Int → M) (low : 0 ≤ first) (high : last ≤ n)
    (outside : ∀ cell, ¬ (first ≤ cell ∧ cell < last) → gain cell = 0) : ((cells first last).map gain).sum = ∑ x ∈ range n, gain x := by
  obtain ⟨before, rfl⟩ := Int.eq_ofNat_of_zero_le low
  by_cases empty : last ≤ before
  · have count : (last - before).toNat = 0 := by omega
    have all : ∑ x ∈ range n, gain x = 0 := sum_eq_zero fun x _ => outside x (by omega)
    rw [cells, count, all]
    rfl
  · obtain ⟨count, rfl⟩ : ∃ count : Nat, last = before + count := ⟨(last - before).toNat, by omega⟩
    obtain ⟨rest, rfl⟩ : ∃ rest, n = before + count + rest := ⟨n - (before + count), by omega⟩
    have size : ((before : Int) + count - before).toNat = count := by omega
    have front : ∑ x ∈ range before, gain x = 0 := sum_eq_zero fun x member => outside x (by rw [mem_range] at member; omega)
    have back : ∑ x ∈ range rest, gain ((before + count + x : Nat) : Int) = 0 := sum_eq_zero fun x _ => outside _ (by omega)
    rw [sum_range_add, sum_range_add, front, back, zero_add, add_zero, cells, size, List.map_map]
    rfl

section Floor
variable [FloorRing K]

theorem overlap_inside (ordered : least ≤ most) (low : ⌊least⌋ ≤ cell) (high : cell < ⌈most⌉) :
    min ((cell : K) + 1) most - max (cell : K) least = overlap least most cell := by
  have below : least ≤ cell + 1 := (Int.floor_lt.mp (by omega : ⌊least⌋ < cell + 1)).le.trans_eq (by push_cast; rfl)
  have above : (cell : K) ≤ most := (Int.lt_ceil.mp high).le
  refine (max_eq_right (sub_nonneg.mpr ?_)).symm
  exact max_le (le_min (by linarith) above) (le_min below ordered)

theorem overlap_outside (outside : ¬ (⌊least⌋ ≤ cell ∧ cell < ⌈most⌉)) : overlap least most cell = 0 := by
  refine max_eq_left (sub_nonpos.mpr ?_)
  by_cases low : ⌊least⌋ ≤ cell
  · have past : most ≤ cell := Int.ceil_le.mp (by omega)
    exact (min_le_right _ _).trans (past.trans (le_max_left _ _))
  · have early : ((cell + 1 : Int) : K) ≤ least := Int.le_floor.mp (by omega)
    push_cast at early
    exact (min_le_left _ _).trans (early.trans (le_max_right _ _))

end Floor
end Lib.UnitCells

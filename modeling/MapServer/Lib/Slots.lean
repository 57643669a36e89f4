import Mathlib.Data.List.Basic

/-! Stores and moves that have no outcome outside the array, and the list of the first slots. -/

namespace Lib
open List Option Function
variable {α : Type}

structure Slots (α : Type) where
  size : Nat
  get : Nat → α

namespace Slots

def load (slots : Slots α) (i : Nat) : Option α := if i < slots.size then some (slots.get i) else none

def store (slots : Slots α) (i : Nat) (value : α) : Option (Slots α) :=
  if i < slots.size then some { slots with get := Function.update slots.get i value } else none

/-- `count` slots are moved from `source` to `target`; the ranges may overlap. -/
def move (slots : Slots α) (target source count : Nat) : Option (Slots α) :=
  if target + count ≤ slots.size ∧ source + count ≤ slots.size then
    some { slots with get := fun k => if target ≤ k ∧ k < target + count then slots.get (source + (k - target)) else slots.get k }
  else none

def front (slots : Slots α) (count : Nat) : List α := (List.range count).map slots.get

@[simp] theorem length_front (slots : Slots α) (count : Nat) : (slots.front count).length = count := by
  rw [front, length_map, length_range]

theorem getElem?_front (slots : Slots α) (count k : Nat) :
    (slots.front count)[k]? = if k < count then some (slots.get k) else none := by
  rw [front, getElem?_map]
  split
  · rename_i inside
    rw [getElem?_range inside, map_some]
  · rename_i outside
    rw [getElem?_eq_none (by rw [length_range]; omega), map_none]

theorem front_succ (slots : Slots α) (count : Nat) : slots.front (count + 1) = slots.front count ++ [slots.get count] := by
  rw [front, range_succ, map_append]
  rfl

variable {after before : List α} {count : Nat} {slots : Slots α}

theorem get_of_front {value : α} (parts : slots.front count = before ++ value :: after) :
    slots.get before.length = value := by
  have here := slots.getElem?_front count before.length
  have length := congrArg List.length parts
  rw [length_front, length_append, length_cons] at length
  rw [parts, getElem?_append_right (Nat.le_refl _), Nat.sub_self, getElem?_cons_zero, if_pos (by omega)] at here
  exact (Option.some.inj here).symm

theorem load_eq {i : Nat} (inside : i < slots.size) : slots.load i = some (slots.get i) := if_pos inside

theorem store_eq {i : Nat} (inside : i < slots.size) (value : α) :
    slots.store i value = some { slots with get := update slots.get i value } := if_pos inside

theorem store_some {after : Slots α} {i : Nat} {value : α} (run : slots.store i value = some after) :
    i < slots.size ∧ after = { slots with get := update slots.get i value } := by
  unfold store at run
  split at run
  · rename_i inside
    exact ⟨inside, (Option.some.inj run).symm⟩
  · cases run

theorem front_update_later (slots : Slots α) {i : Nat} (later : count ≤ i) (value : α) :
    ({ slots with get := update slots.get i value } : Slots α).front count = slots.front count := by
  apply map_congr_left
  intro k member
  have inside := mem_range.mp member
  exact update_of_ne (by omega) _ _

theorem front_update {old : α} (parts : slots.front count = before ++ old :: after) (value : α) :
    ({ slots with get := update slots.get before.length value } : Slots α).front count = before ++ value :: after := by
  have length := congrArg List.length parts
  rw [length_front, length_append, length_cons] at length
  apply ext_getElem?
  intro k
  have old_ := slots.getElem?_front count k
  rw [parts] at old_
  rw [getElem?_front]
  dsimp only
  by_cases here : k = before.length
  · rw [here, if_pos (by omega), update_self, getElem?_append_right (Nat.le_refl _), Nat.sub_self,
      getElem?_cons_zero]
  · rw [update_of_ne here, ← old_]
    rcases Nat.lt_or_gt_of_ne here with front | back
    · rw [getElem?_append_left front, getElem?_append_left front]
    · rw [getElem?_append_right (by omega), getElem?_append_right (by omega)]
      obtain ⟨j, isNext⟩ : ∃ j, k - before.length = j + 1 := ⟨k - before.length - 1, by omega⟩
      rw [isNext, getElem?_cons_succ, getElem?_cons_succ]

theorem front_insert (parts : slots.front count = before ++ after) (room : count < slots.size) :
    ∃ moved, slots.move (before.length + 1) before.length after.length = some moved ∧
      moved.size = slots.size ∧ ∃ stale, moved.front (count + 1) = before ++ stale :: after := by
  have length := congrArg List.length parts
  rw [length_front, length_append] at length
  refine ⟨_, if_pos ⟨by omega, by omega⟩, rfl, slots.get before.length, ?_⟩
  apply ext_getElem?
  intro k
  rw [getElem?_front]
  dsimp only
  rcases Nat.lt_trichotomy k before.length with front | here | back
  · have old := slots.getElem?_front count k
    rw [parts, if_pos (by omega), getElem?_append_left front] at old
    rw [if_pos (by omega), if_neg (by omega), getElem?_append_left front, old]
  · rw [here, if_pos (by omega), if_neg (by omega), getElem?_append_right (Nat.le_refl _), Nat.sub_self,
      getElem?_cons_zero]
  · obtain ⟨j, isNext⟩ : ∃ j, k = before.length + (j + 1) := ⟨k - before.length - 1, by omega⟩
    have old := slots.getElem?_front count (before.length + j)
    rw [parts, getElem?_append_right (by omega), Nat.add_sub_cancel_left] at old
    rw [isNext, getElem?_append_right (by omega), Nat.add_sub_cancel_left, getElem?_cons_succ, old]
    by_cases inside : before.length + j < count
    · rw [if_pos (by omega), if_pos (by omega), if_pos inside, show before.length + (before.length + (j + 1) - (before.length + 1)) =
        before.length + j by omega]
    · rw [if_neg (by omega), if_neg inside]

end Slots

end Lib

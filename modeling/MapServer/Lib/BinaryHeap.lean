import Mathlib.Logic.Equiv.Basic
import Mathlib.Order.Lattice
import Mathlib.Order.Nat

/-! What a swap on the way up or down keeps, and what holds at the end of the way. -/

namespace Lib.BinaryHeap
open Function
variable {κ : Type} [LinearOrder κ] {size i child : Nat} {key : Nat → κ}

def parent (i : Nat) : Nat := (i - 1) / 2

theorem parent_lt (later : 0 < i) : parent i < i := by
  unfold parent
  omega

def Ordered (size : Nat) (key : Nat → κ) : Prop := ∀ j, 0 < j → j < size → key (parent j) ≤ key j

/-- The key of slot `i` may be too small. -/
structure OrderedUpTo (size : Nat) (key : Nat → κ) (i : Nat) : Prop where
  others : ∀ j, 0 < j → j < size → j ≠ i → key (parent j) ≤ key j
  around : 0 < i → ∀ j, 0 < j → j < size → parent j = i → key (parent i) ≤ key j

/-- The key of slot `i` may be too large. -/
structure OrderedDownFrom (size : Nat) (key : Nat → κ) (i : Nat) : Prop where
  others : ∀ j, 0 < j → j < size → parent j ≠ i → key (parent j) ≤ key j
  around : 0 < i → ∀ j, 0 < j → j < size → parent j = i → key (parent i) ≤ key j

theorem Ordered.root_le (ordered : Ordered size key) : i < size → key 0 ≤ key i := by
  induction i using Nat.strongRecOn with
  | ind i ih =>
    intro inside
    rcases Nat.eq_zero_or_pos i with rfl | later
    · exact le_rfl
    · have above := parent_lt later
      exact (ih (parent i) above (above.trans inside)).trans (ordered i later inside)

theorem Ordered.lower (ordered : Ordered size key) {value : κ} (lower : value ≤ key i) :
    OrderedUpTo size (update key i value) i where
  others := by
    intro j later inside other
    rw [update_of_ne other]
    by_cases child : parent j = i
    · rw [child, update_self]
      exact lower.trans (child ▸ ordered j later inside)
    · rw [update_of_ne child]
      exact ordered j later inside
  around := by
    intro notRoot j later inside isParent
    have above := parent_lt later
    have i_lt : i < size := by omega
    rw [update_of_ne (parent_lt notRoot).ne, update_of_ne (by omega)]
    exact (ordered i notRoot i_lt).trans (isParent ▸ ordered j later inside)

theorem OrderedUpTo.swap (up : OrderedUpTo size key i) (later : 0 < i) (inside : i < size) (less : key i < key (parent i)) :
    OrderedUpTo size (key ∘ Equiv.swap i (parent i)) (parent i) where
  others := by
    intro j notRoot here other
    simp only [comp_apply]
    by_cases same : j = i
    · rw [same, Equiv.swap_apply_left, Equiv.swap_apply_right]
      exact less.le
    · rw [Equiv.swap_apply_of_ne_of_ne same other]
      by_cases child : parent j = i
      · rw [child, Equiv.swap_apply_left]
        exact up.around later j notRoot here child
      · have below := up.others j notRoot here same
        by_cases sibling : parent j = parent i
        · rw [sibling, Equiv.swap_apply_right]
          exact less.le.trans (sibling ▸ below)
        · rwa [Equiv.swap_apply_of_ne_of_ne child sibling]
  around := by
    intro notRoot j later' here isParent
    have above := parent_lt later
    have above' := parent_lt notRoot
    have grand := up.others (parent i) notRoot (above.trans inside) above.ne
    simp only [comp_apply]
    rw [Equiv.swap_apply_of_ne_of_ne (by omega) above'.ne]
    by_cases same : j = i
    · rw [same, Equiv.swap_apply_left]
      exact grand
    · have other : j ≠ parent i := by
        rintro rfl
        omega
      rw [Equiv.swap_apply_of_ne_of_ne same other]
      exact grand.trans (isParent ▸ up.others j later' here same)

theorem OrderedUpTo.stop (up : OrderedUpTo size key i) (stops : i = 0 ∨ key (parent i) ≤ key i) : Ordered size key := by
  intro j later inside
  by_cases same : j = i
  · rcases stops with root | least
    · omega
    · rwa [same]
  · exact up.others j later inside same

theorem Ordered.replace_root (ordered : Ordered (size + 1) key) : OrderedDownFrom size (update key 0 (key size)) 0 where
  others := by
    intro j later inside other
    rw [update_of_ne other, update_of_ne later.ne']
    exact ordered j later (by omega)
  around := by
    intro absurd
    omega

theorem OrderedDownFrom.swap (down : OrderedDownFrom size key i) (later : 0 < child) (inside : child < size)
    (isChild : parent child = i) (less : key child < key i)
    (least : ∀ j, 0 < j → j < size → parent j = i → key child ≤ key j) :
    OrderedDownFrom size (key ∘ Equiv.swap child i) child where
  others := by
    intro j notRoot here other
    have below := isChild ▸ parent_lt later
    simp only [comp_apply]
    by_cases same : j = child
    · rw [same, isChild, Equiv.swap_apply_left, Equiv.swap_apply_right]
      exact less.le
    · by_cases hole : j = i
      · subst hole
        have above := parent_lt notRoot
        rw [Equiv.swap_apply_right, Equiv.swap_apply_of_ne_of_ne other above.ne]
        exact down.around notRoot child later inside isChild
      · rw [Equiv.swap_apply_of_ne_of_ne same hole]
        by_cases sibling : parent j = i
        · rw [sibling, Equiv.swap_apply_right]
          exact least j notRoot here sibling
        · rw [Equiv.swap_apply_of_ne_of_ne other sibling]
          exact down.others j notRoot here sibling
  around := by
    intro _ j notRoot here isParent
    have below := isChild ▸ parent_lt later
    have below' := isParent ▸ parent_lt notRoot
    simp only [comp_apply]
    rw [isChild, Equiv.swap_apply_right, Equiv.swap_apply_of_ne_of_ne (by omega) (by omega)]
    exact isParent ▸ down.others j notRoot here (by omega)

theorem OrderedDownFrom.stop (down : OrderedDownFrom size key i)
    (least : ∀ j, 0 < j → j < size → parent j = i → key i ≤ key j) : Ordered size key := by
  intro j later inside
  by_cases child : parent j = i
  · rw [child]
    exact least j later inside child
  · exact down.others j later inside child

theorem child_cases {j : Nat} (later : 0 < j) (isChild : parent j = i) : j = 2 * i + 1 ∨ j = 2 * i + 2 := by
  unfold parent at isChild
  omega

def leastOf (size : Nat) (key : Nat → κ) (child least : Nat) : Nat := if child < size ∧ key child < key least then child else least

theorem leastOf_children (size : Nat) (key : Nat → κ) (i : Nat) {least : Nat}
    (isLeast : leastOf size key (2 * i + 2) (leastOf size key (2 * i + 1) i) = least) :
    (least = i ∨ 0 < least ∧ least < size ∧ parent least = i ∧ key least < key i) ∧
      ∀ j, 0 < j → j < size → parent j = i → key least ≤ key j := by
  have left : parent (2 * i + 1) = i := by
    unfold parent
    omega
  have right : parent (2 * i + 2) = i := by
    unfold parent
    omega
  have children (k : Nat) (one : 2 * i + 1 < size → key k ≤ key (2 * i + 1)) (two : 2 * i + 2 < size → key k ≤ key (2 * i + 2)) :
      ∀ j, 0 < j → j < size → parent j = i → key k ≤ key j := by
    intro j later inside isChild
    rcases child_cases later isChild with rfl | rfl
    · exact one inside
    · exact two inside
  rw [← isLeast]
  unfold leastOf
  by_cases first : 2 * i + 1 < size ∧ key (2 * i + 1) < key i
  · rw [if_pos first]
    by_cases second : 2 * i + 2 < size ∧ key (2 * i + 2) < key (2 * i + 1)
    · rw [if_pos second]
      exact ⟨.inr ⟨by omega, second.1, right, second.2.trans first.2⟩, children _ (fun _ => second.2.le) fun _ => le_rfl⟩
    · rw [if_neg second]
      refine ⟨.inr ⟨by omega, first.1, left, first.2⟩, children _ (fun _ => le_rfl) fun inside => ?_⟩
      exact not_lt.mp fun less => second ⟨inside, less⟩
  · rw [if_neg first]
    have notLeft : 2 * i + 1 < size → key i ≤ key (2 * i + 1) := fun inside => not_lt.mp fun less => first ⟨inside, less⟩
    by_cases second : 2 * i + 2 < size ∧ key (2 * i + 2) < key i
    · rw [if_pos second]
      exact ⟨.inr ⟨by omega, second.1, right, second.2⟩,
        children _ (fun inside => second.2.le.trans (notLeft inside)) fun _ => le_rfl⟩
    · rw [if_neg second]
      exact ⟨.inl rfl, children _ notLeft fun inside => not_lt.mp fun less => second ⟨inside, less⟩⟩

end Lib.BinaryHeap

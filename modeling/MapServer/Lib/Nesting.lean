import Mathlib.Algebra.Group.Nat.Even
import Mathlib.Data.Finset.Max
import Mathlib.Data.Fintype.Basic

namespace Lib.Nesting
variable {ι : Type} [Fintype ι]

structure Nested (encloses : ι → ι → Prop) : Prop where
  irrefl : ∀ a, ¬ encloses a a
  trans : ∀ a b c, encloses a b → encloses b c → encloses a c
  comparable : ∀ a b c, encloses a c → encloses b c → a ≠ b → encloses a b ∨ encloses b a

variable (encloses : ι → ι → Prop) [DecidableRel encloses]

def enclosers (a : ι) : Finset ι :=
  Finset.univ.filter fun b => encloses b a

def depth (a : ι) : Nat :=
  (enclosers encloses a).card

def IsSmallest (smallest a : ι) : Prop :=
  encloses smallest a ∧ ∀ b, encloses b a → b ≠ smallest → encloses b smallest

variable {encloses}

theorem mem_enclosers {a b : ι} : b ∈ enclosers encloses a ↔ encloses b a := by
  simp [enclosers]

theorem depth_pos {a : ι} : 0 < depth encloses a ↔ ∃ b, encloses b a := by
  rw [depth, Finset.card_pos]
  exact exists_congr fun b => mem_enclosers

theorem depth_lt (nested : Nested encloses) {a b : ι} (outer : encloses a b) : depth encloses a < depth encloses b := by
  apply Finset.card_lt_card
  apply Finset.ssubset_iff_subset_ne.mpr
  constructor
  · intro c member
    exact mem_enclosers.mpr (nested.trans c a b (mem_enclosers.mp member) outer)
  · intro same
    have member : a ∈ enclosers encloses b := mem_enclosers.mpr outer
    rw [← same] at member
    exact nested.irrefl a (mem_enclosers.mp member)

theorem exists_smallest (nested : Nested encloses) {a : ι} (enclosed : 0 < depth encloses a) :
    ∃ smallest, IsSmallest encloses smallest a := by
  obtain ⟨smallest, member, deepest⟩ :=
    Finset.exists_max_image (enclosers encloses a) (depth encloses) (Finset.card_pos.mp enclosed)
  refine ⟨smallest, mem_enclosers.mp member, ?_⟩
  intro b outer differs
  apply (nested.comparable b smallest a outer (mem_enclosers.mp member) differs).resolve_right
  intro inner
  have := depth_lt nested inner
  have := deepest b (mem_enclosers.mpr outer)
  omega

variable [DecidableEq ι]

theorem depth_smallest (nested : Nested encloses) {smallest a : ι} (isSmallest : IsSmallest encloses smallest a) :
    depth encloses a = depth encloses smallest + 1 := by
  have same : enclosers encloses a = insert smallest (enclosers encloses smallest) := by
    ext b
    rw [Finset.mem_insert, mem_enclosers, mem_enclosers]
    constructor
    · intro outer
      by_cases itself : b = smallest
      · exact .inl itself
      · exact .inr (isSmallest.2 b outer itself)
    · rintro (rfl | outer)
      · exact isSmallest.1
      · exact nested.trans b smallest a outer isSmallest.1
  rw [depth, same, Finset.card_insert_of_notMem]
  · rfl
  · intro member
    exact nested.irrefl smallest (mem_enclosers.mp member)

theorem evenEncloser_unique_iff (nested : Nested encloses) :
    (∀ a, ¬ Even (depth encloses a) → ∃ smallest, IsSmallest encloses smallest a ∧ Even (depth encloses smallest) ∧
      ∀ b, encloses b a → Even (depth encloses b) → b = smallest) ↔ ∀ a, depth encloses a < 3 := by
  constructor
  · intro unique
    -- an odd member of depth three or more has the third of its enclosers too
    have shallow : ∀ a, ¬ Even (depth encloses a) → depth encloses a < 3 := by
      intro a odd
      by_contra deep
      obtain ⟨smallest, isSmallest, even, only⟩ := unique a odd
      have first := depth_smallest nested isSmallest
      obtain ⟨second, isSecond⟩ := exists_smallest nested (show 0 < depth encloses smallest by omega)
      have next := depth_smallest nested isSecond
      obtain ⟨third, isThird⟩ := exists_smallest nested (show 0 < depth encloses second by omega)
      have last := depth_smallest nested isThird
      have outer := nested.trans third second smallest isThird.1 isSecond.1
      have evenThird : Even (depth encloses third) := by
        rw [Nat.even_iff] at even ⊢
        omega
      have same := only third (nested.trans third smallest a outer isSmallest.1) evenThird
      exact nested.irrefl smallest (same ▸ outer)
    intro a
    by_contra deep
    by_cases even : Even (depth encloses a)
    · obtain ⟨smallest, isSmallest⟩ := exists_smallest nested (show 0 < depth encloses a by omega)
      have first := depth_smallest nested isSmallest
      rw [Nat.even_iff] at even
      have odd : ¬ Even (depth encloses smallest) := by
        rw [Nat.even_iff]
        omega
      have := shallow smallest odd
      omega
    · have := shallow a even
      omega
  · intro shallow a odd
    have bound := shallow a
    rw [Nat.even_iff] at odd
    obtain ⟨smallest, isSmallest⟩ := exists_smallest nested (show 0 < depth encloses a by omega)
    have first := depth_smallest nested isSmallest
    have top : depth encloses smallest = 0 := by omega
    refine ⟨smallest, isSmallest, by simp [top], ?_⟩
    intro b outer _
    by_contra differs
    have := depth_pos.mpr ⟨b, isSmallest.2 b outer differs⟩
    omega

end Lib.Nesting

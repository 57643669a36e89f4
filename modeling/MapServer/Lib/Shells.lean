import Mathlib.Data.Fintype.Fin
import MapServer.Lib.Nesting

/-! The members of a nested family in lists: each member of even depth with the odd ones that it encloses. -/

namespace Lib.Nesting
open List Function
variable {n : Nat} (encloses : Fin n → Fin n → Prop) [DecidableRel encloses]

def shells : List (Fin n) := (List.finRange n).filter fun k => decide (Even (depth encloses k))

def shellAndHoles (k : Fin n) : List (Fin n) :=
  (List.finRange n).filter fun i => decide (i = k ∨ encloses k i ∧ ¬ Even (depth encloses i))

/-- Each member is in one list, and each list has a shell first and then the holes directly inside it. -/
structure Arranged (arrangement : List (List (Fin n))) : Prop where
  once : arrangement.flatten.Perm (List.finRange n)
  each : ∀ members ∈ arrangement, ∃ shell holes, members = shell :: holes ∧ Even (depth encloses shell) ∧
    ∀ hole ∈ holes, IsSmallest encloses shell hole

variable {encloses}

theorem mem_shells {k : Fin n} : k ∈ shells encloses ↔ Even (depth encloses k) := by
  rw [shells, mem_filter, decide_eq_true_iff]
  exact and_iff_right (mem_finRange k)

theorem mem_shellAndHoles {k i : Fin n} :
    i ∈ shellAndHoles encloses k ↔ i = k ∨ encloses k i ∧ ¬ Even (depth encloses i) := by
  rw [shellAndHoles, mem_filter, decide_eq_true_iff]
  exact and_iff_right (mem_finRange i)

theorem finRange_increasing (n : Nat) : (finRange n).Pairwise (· < ·) := by
  rw [← ofFn_id, pairwise_ofFn]
  exact fun _ _ less => less

theorem shellAndHoles_increasing (k : Fin n) : (shellAndHoles encloses k).Pairwise (· < ·) :=
  (finRange_increasing n).filter _

theorem head_least {list : List (Fin n)} (increasing : list.Pairwise (· < ·)) {k : Fin n} (member : k ∈ list)
    (least : ∀ i ∈ list, k ≤ i) : ∃ rest, list = k :: rest := by
  cases list with
  | nil => cases member
  | cons first rest =>
    rcases mem_cons.mp member with rfl | behind
    · exact ⟨rest, rfl⟩
    · have less := (pairwise_cons.mp increasing).1 k behind
      have := least first (mem_cons_self ..)
      omega

theorem even_of_smallest (nested : Nested encloses) {k i : Fin n} (smallest : IsSmallest encloses k i) (even : Even (depth encloses k)) :
    ¬ Even (depth encloses i) := by
  have := depth_smallest nested smallest
  rw [Nat.even_iff] at even ⊢
  omega

/-- The lists of the shells are right just when no member is enclosed by three others and no hole is before its shell. -/
theorem arranged_iff (nested : Nested encloses) : Arranged encloses ((shells encloses).map (shellAndHoles encloses)) ↔
    (∀ i, depth encloses i < 3) ∧ ∀ k i, Even (depth encloses k) → encloses k i → ¬ Even (depth encloses i) → k < i := by
  have among {k : Fin n} (even : Even (depth encloses k)) :
      shellAndHoles encloses k ∈ (shells encloses).map (shellAndHoles encloses) := List.mem_map_of_mem (mem_shells.mpr even)
  have nodupShells : (shells encloses).Nodup := (nodup_finRange n).filter _
  constructor
  · intro arranged
    have starts {k : Fin n} (even : Even (depth encloses k)) :
        ∃ holes, shellAndHoles encloses k = k :: holes ∧ ∀ hole ∈ holes, IsSmallest encloses k hole := by
      obtain ⟨shell, holes, parts, evenShell, direct⟩ := arranged.each _ (among even)
      have itself : k ∈ shell :: holes := parts ▸ mem_shellAndHoles.mpr (.inl rfl)
      rcases mem_cons.mp itself with rfl | hole
      · exact ⟨holes, parts, direct⟩
      · exact absurd even (even_of_smallest nested (direct k hole) evenShell)
    have holeOf {k i : Fin n} (even : Even (depth encloses k)) (inside : encloses k i) (odd : ¬ Even (depth encloses i)) :
        ∃ holes, shellAndHoles encloses k = k :: holes ∧ i ∈ holes ∧ IsSmallest encloses k i := by
      obtain ⟨holes, parts, direct⟩ := starts even
      have member : i ∈ k :: holes := parts ▸ mem_shellAndHoles.mpr (.inr ⟨inside, odd⟩)
      rcases mem_cons.mp member with rfl | hole
      · exact absurd even odd
      · exact ⟨holes, parts, hole, direct i hole⟩
    refine ⟨(evenEncloser_unique_iff nested).mp fun a odd => ?_, fun k i even inside odd => ?_⟩
    · have member : a ∈ ((shells encloses).map (shellAndHoles encloses)).flatten := arranged.once.mem_iff.mpr (mem_finRange a)
      obtain ⟨members, isMembers, isMember⟩ := mem_flatten.mp member
      obtain ⟨k, isShell, rfl⟩ := List.mem_map.mp isMembers
      have even := mem_shells.mp isShell
      have inside : encloses k a := by
        rcases mem_shellAndHoles.mp isMember with rfl | ⟨inside, _⟩
        · exact absurd even odd
        · exact inside
      obtain ⟨_, _, _, smallest⟩ := holeOf even inside odd
      refine ⟨k, smallest, even, fun b outer evenB => ?_⟩
      by_contra differs
      have nodup := arranged.once.nodup_iff.mpr (nodup_finRange n)
      rw [← flatMap_def, nodup_flatMap] at nodup
      have symmetric : Std.Symm (onFun List.Disjoint (shellAndHoles encloses)) :=
        ⟨fun _ _ disjoint => disjoint.symm⟩
      exact nodup.2.forall (mem_shells.mpr evenB) isShell differs (mem_shellAndHoles.mpr (.inr ⟨outer, odd⟩)) isMember
    · obtain ⟨holes, parts, hole, _⟩ := holeOf even inside odd
      have increasing := @shellAndHoles_increasing n encloses _ k
      rw [parts] at increasing
      exact (pairwise_cons.mp increasing).1 i hole
  · rintro ⟨shallow, behind⟩
    have unique := (evenEncloser_unique_iff nested).mpr shallow
    constructor
    · rw [← flatMap_def, perm_ext_iff_of_nodup _ (nodup_finRange n)]
      · intro i
        refine iff_of_true (mem_flatMap.mpr ?_) (mem_finRange i)
        by_cases even : Even (depth encloses i)
        · exact ⟨i, mem_shells.mpr even, mem_shellAndHoles.mpr (.inl rfl)⟩
        · obtain ⟨k, smallest, evenK, _⟩ := unique i even
          exact ⟨k, mem_shells.mpr evenK, mem_shellAndHoles.mpr (.inr ⟨smallest.1, even⟩)⟩
      · rw [nodup_flatMap]
        refine ⟨fun k _ => (nodup_finRange n).filter _, ?_⟩
        apply nodupShells.imp_of_mem
        intro k other isK isOther differs i first second
        have evenK := mem_shells.mp isK
        have evenOther := mem_shells.mp isOther
        rcases mem_shellAndHoles.mp first with rfl | ⟨inside, odd⟩
        · rcases mem_shellAndHoles.mp second with same | ⟨_, odd⟩
          · exact differs same
          · exact odd evenK
        · rcases mem_shellAndHoles.mp second with rfl | ⟨insideOther, _⟩
          · exact odd evenOther
          · obtain ⟨smallest, _, _, only⟩ := unique i odd
            exact differs ((only k inside evenK).trans (only other insideOther evenOther).symm)
    · intro members isMembers
      obtain ⟨k, isShell, rfl⟩ := List.mem_map.mp isMembers
      have even := mem_shells.mp isShell
      obtain ⟨holes, parts⟩ := head_least (@shellAndHoles_increasing n encloses _ k) (mem_shellAndHoles.mpr (.inl rfl)) (by
        intro i member
        rcases mem_shellAndHoles.mp member with rfl | ⟨inside, odd⟩
        · exact le_refl _
        · exact (behind k i even inside odd).le)
      refine ⟨k, holes, parts, even, fun hole isHole => ?_⟩
      have increasing := @shellAndHoles_increasing n encloses _ k
      rw [parts] at increasing
      have less := (pairwise_cons.mp increasing).1 hole isHole
      have member : hole ∈ shellAndHoles encloses k := parts ▸ mem_cons_of_mem k isHole
      rcases mem_shellAndHoles.mp member with rfl | ⟨inside, odd⟩
      · exact absurd less (lt_irrefl _)
      · obtain ⟨smallest, isSmallest, _, only⟩ := unique hole odd
        rw [only k inside even]
        exact isSmallest

end Lib.Nesting

import MapServer.Lib.Crossings

/-! Convex quadrilaterals: when two of them meet, and the even-odd rule on their corners. -/

namespace Lib.ConvexQuads
open Lib.EvenOdd Lib.Segments

section Turns
variable {K : Type} [Field K]

def turn (a b p : K × K) : K := cross (b - a) (p - a)

theorem turn_rotate (a b c : K × K) : turn b c a = turn a b c := by
  simp only [turn, cross, Prod.fst_sub, Prod.snd_sub]
  ring

theorem turn_along (a b p q : K × K) (t : K) : turn a b (along p q t) = (1 - t) * turn a b p + t * turn a b q := by
  simp only [turn, cross, along, Prod.fst_sub, Prod.snd_sub]
  ring

@[simp] theorem turn_start (a b : K × K) : turn a b a = 0 := by simp [turn, cross]

@[simp] theorem turn_stop (a b : K × K) : turn a b b = 0 := by
  simp only [turn, cross]
  ring

theorem turn_height (a b c p : K × K) :
    turn a b c * (p.2 - b.2) = turn a b p * (c.2 - b.2) - turn b c p * (b.2 - a.2) := by
  simp only [turn, cross, Prod.fst_sub, Prod.snd_sub]
  ring

theorem turn_diagonals (a b c d : K × K) (y : K) :
    turn b c d * (a.2 - y) + turn d a b * (c.2 - y) = turn c d a * (b.2 - y) + turn a b c * (d.2 - y) := by
  simp only [turn, cross, Prod.fst_sub, Prod.snd_sub]
  ring

theorem turn_eq_crossing {a b : K × K} (slanted : a.2 ≠ b.2) (p : K × K) :
    turn a b p = (b.2 - a.2) * (crossingX a b p - p.1) := by
  simp only [turn, cross, crossingX, Prod.fst_sub, Prod.snd_sub]
  field_simp
  ring

end Turns

structure Quad (K : Type) [Field K] [LinearOrder K] where
  corner : Fin 4 → K × K
  convex : ∀ i, 0 < turn (corner 0) (corner 1) (corner 2) * turn (corner i) (corner (i + 1)) (corner (i + 2))

variable {K : Type} [Field K] [LinearOrder K]

namespace Quad

def side (quad : Quad K) (i : Fin 4) (q : K × K) : K :=
  turn (quad.corner 0) (quad.corner 1) (quad.corner 2) * turn (quad.corner i) (quad.corner (i + 1)) q

def area (quad : Quad K) : Set (K × K) := {q | ∀ i, 0 ≤ quad.side i q}

def edge (quad : Quad K) (i : Fin 4) : Set (K × K) := segment K (quad.corner i) (quad.corner (i + 1))

def ring (quad : Quad K) : List (K × K) := [quad.corner 0, quad.corner 1, quad.corner 2, quad.corner 3, quad.corner 0]

theorem side_along (quad : Quad K) (i : Fin 4) (p q : K × K) (t : K) :
    quad.side i (along p q t) = (1 - t) * quad.side i p + t * quad.side i q := by
  rw [side, turn_along, side, side]
  ring

theorem round_start : ∀ i : Fin 4, i + 3 + 1 = i := by decide

theorem round_next : ∀ i : Fin 4, i + 3 + 2 = i + 1 := by decide

theorem round_stop : ∀ i : Fin 4, i + 1 + 3 = i := by decide

@[simp] theorem side_start (quad : Quad K) (i : Fin 4) : quad.side i (quad.corner i) = 0 := by
  rw [side, turn_start, mul_zero]

@[simp] theorem side_stop (quad : Quad K) (i : Fin 4) : quad.side i (quad.corner (i + 1)) = 0 := by
  rw [side, turn_stop, mul_zero]

theorem side_next (quad : Quad K) (i : Fin 4) : 0 < quad.side i (quad.corner (i + 2)) := quad.convex i

theorem side_last (quad : Quad K) (i : Fin 4) : 0 < quad.side i (quad.corner (i + 3)) := by
  have before := quad.convex (i + 3)
  rwa [round_start, round_next, ← turn_rotate (quad.corner (i + 3))] at before

theorem side_corner (quad : Quad K) (i j : Fin 4) : 0 ≤ quad.side i (quad.corner j) := by
  obtain ⟨k, rfl⟩ : ∃ k, j = i + k := ⟨j - i, (add_sub_cancel i j).symm⟩
  match k with
  | 0 => rw [add_zero, side_start]
  | 1 => rw [side_stop]
  | 2 => exact (quad.side_next i).le
  | 3 => exact (quad.side_last i).le

theorem corner_mem (quad : Quad K) (j : Fin 4) : quad.corner j ∈ quad.area := fun i => quad.side_corner i j

theorem ring_subset (quad : Quad K) : {a | a ∈ quad.ring} ⊆ Set.range quad.corner := by
  intro a member
  have among : a = quad.corner 0 ∨ a = quad.corner 1 ∨ a = quad.corner 2 ∨ a = quad.corner 3 ∨ a = quad.corner 0 := by
    simpa [ring] using member
  rcases among with rfl | rfl | rfl | rfl | rfl <;> exact Set.mem_range_self _

theorem corner_ne (quad : Quad K) (i : Fin 4) : quad.corner i ≠ quad.corner (i + 1) := by
  intro same
  have positive := quad.convex i
  simp [turn, cross, same] at positive

variable [IsStrictOrderedRing K] {quad : Quad K} {p q : K × K}

theorem convex_area (quad : Quad K) : Convex K quad.area := by
  rw [convex_iff_segment_subset]
  rintro p inP q inQ _ member i
  obtain ⟨t, low, high, rfl⟩ := mem_segment_iff.mp member
  rw [side_along]
  exact add_nonneg (mul_nonneg (sub_nonneg.mpr high) (inP i)) (mul_nonneg low (inQ i))

theorem edge_subset (quad : Quad K) (i : Fin 4) : quad.edge i ⊆ quad.area :=
  quad.convex_area.segment_subset (quad.corner_mem i) (quad.corner_mem (i + 1))

theorem mem_edge (inside : q ∈ quad.area) {i : Fin 4} (onLine : quad.side i q = 0) : q ∈ quad.edge i := by
  have flat : turn (quad.corner i) (quad.corner (i + 1)) q = 0 :=
    (mul_eq_zero.mp onLine).resolve_left (left_ne_zero_of_mul (quad.convex 0).ne')
  obtain ⟨t, rfl⟩ := exists_along (quad.corner_ne i) flat
  have before := inside (i + 3)
  have after := inside (i + 1)
  have first := quad.side_next (i + 3)
  have last := quad.side_last (i + 1)
  have start := quad.side_stop (i + 3)
  have stop := quad.side_start (i + 1)
  rw [round_next] at first
  rw [round_stop] at last
  rw [round_start] at start
  rw [side_along, start, mul_zero, zero_add] at before
  rw [side_along, stop, mul_zero, add_zero] at after
  exact along_mem (nonneg_of_mul_nonneg_left before first) (sub_nonneg.mp (nonneg_of_mul_nonneg_left after last))

theorem exists_exit (inside : p ∈ quad.area) (outside : q ∉ quad.area) : ∃ i, (segment K p q ∩ quad.edge i).Nonempty := by
  obtain ⟨j, beyond⟩ := not_forall.mp outside
  -- of the lines that have `q` beyond them, the one that is met first
  let left : Finset (Fin 4) := Finset.univ.filter fun i => quad.side i q < 0
  let meets (i : Fin 4) : K := quad.side i p / (quad.side i p - quad.side i q)
  obtain ⟨i, member, first⟩ := left.exists_min_image meets ⟨j, by simpa [left] using beyond⟩
  have isLeft : quad.side i q < 0 := (Finset.mem_filter.mp member).2
  have room : 0 < quad.side i p - quad.side i q := by linarith [inside i]
  have low : 0 ≤ meets i := div_nonneg (inside i) room.le
  have high : meets i ≤ 1 := (div_le_one room).mpr (by linarith)
  have still : along p q (meets i) ∈ quad.area := by
    intro k
    rw [side_along]
    by_cases passes : quad.side k q < 0
    · have later := first k (Finset.mem_filter.mpr ⟨Finset.mem_univ k, passes⟩)
      have roomK : 0 < quad.side k p - quad.side k q := by linarith [inside k]
      have bound := (le_div_iff₀ roomK).mp later
      linarith
    · exact add_nonneg (mul_nonneg (sub_nonneg.mpr high) (inside k)) (mul_nonneg low (not_lt.mp passes))
  refine ⟨i, along p q (meets i), along_mem low high, mem_edge still ?_⟩
  have onLine : meets i * (quad.side i p - quad.side i q) = quad.side i p := div_mul_cancel₀ _ room.ne'
  rw [side_along]
  linarith

theorem exists_higher (inner : ∀ i, 0 < quad.side i q) {up : K} (upright : up ≠ 0) : ∃ i, up * q.2 < up * (quad.corner i).2 := by
  obtain ⟨top, -, highest⟩ := Finset.univ.exists_max_image (fun i => up * (quad.corner i).2) ⟨0, Finset.mem_univ 0⟩
  obtain ⟨i, rfl⟩ : ∃ i, top = i + 1 := ⟨top + 3, (round_start top).symm⟩
  refine ⟨i + 1, lt_of_not_ge fun above => ?_⟩
  have before := highest i (Finset.mem_univ _)
  have after := highest (i + 2) (Finset.mem_univ _)
  have turns := quad.convex i
  have first := inner i
  have second := inner (i + 1)
  have next : i + 1 + 1 = i + 2 := add_assoc i 1 1
  rw [side, next] at second
  rw [side] at first
  have balance := turn_height (quad.corner i) (quad.corner (i + 1)) (quad.corner (i + 2)) q
  generalize quad.corner i = a, quad.corner (i + 1) = b, quad.corner (i + 2) = c at *
  generalize turn (quad.corner 0) (quad.corner 1) (quad.corner 2) = turning at *
  have rise : 0 ≤ up * (b.2 - a.2) := by linarith
  have fall : 0 ≤ up * (b.2 - c.2) := by linarith
  have whole : turning * turn a b c * (up * (q.2 - b.2)) + turning * turn a b q * (up * (b.2 - c.2)) +
      turning * turn b c q * (up * (b.2 - a.2)) = 0 := by linear_combination turning * up * balance
  have one := mul_nonneg turns.le (show 0 ≤ up * (q.2 - b.2) by linarith)
  have two := mul_nonneg first.le fall
  have three := mul_nonneg second.le rise
  -- both edges at the corner are level
  have levelC : up * (b.2 - c.2) = 0 := (mul_eq_zero.mp (by linarith)).resolve_left first.ne'
  have levelA : up * (b.2 - a.2) = 0 := (mul_eq_zero.mp (by linarith)).resolve_left second.ne'
  have flatC := (mul_eq_zero.mp levelC).resolve_left upright
  have flatA := (mul_eq_zero.mp levelA).resolve_left upright
  have flat : turn a b c = 0 := by
    simp only [turn, cross, Prod.fst_sub, Prod.snd_sub]
    linear_combination (a.1 - b.1) * flatC + (b.1 - c.1) * flatA
  rw [flat, mul_zero] at turns
  exact turns.false

theorem not_alternating (quad : Quad K) (q : K × K) : ¬ (reaches (quad.corner 0) q = reaches (quad.corner 2) q ∧
    reaches (quad.corner 1) q = reaches (quad.corner 3) q ∧ reaches (quad.corner 0) q ≠ reaches (quad.corner 1) q) := by
  rintro ⟨even, odd, differ⟩
  have balance := turn_diagonals (quad.corner 0) (quad.corner 1) (quad.corner 2) (quad.corner 3) q.2
  have turn0 : 0 < quad.side 0 (quad.corner 2) := quad.convex 0
  have turn1 : 0 < quad.side 1 (quad.corner 3) := quad.convex 1
  have turn2 : 0 < quad.side 2 (quad.corner 0) := quad.convex 2
  have turn3 : 0 < quad.side 3 (quad.corner 1) := quad.convex 3
  have whole : quad.side 1 (quad.corner 3) * ((quad.corner 0).2 - q.2) + quad.side 3 (quad.corner 1) * ((quad.corner 2).2 - q.2) =
      quad.side 2 (quad.corner 0) * ((quad.corner 1).2 - q.2) + quad.side 0 (quad.corner 2) * ((quad.corner 3).2 - q.2) := by
    simp only [side, Fin.reduceAdd]
    linear_combination turn (quad.corner 0) (quad.corner 1) (quad.corner 2) * balance
  simp only [reaches, decide_eq_decide, ne_eq] at even odd differ
  by_cases low : (quad.corner 0).2 ≤ q.2
  · have high : ¬ (quad.corner 1).2 ≤ q.2 := fun both => differ (iff_of_true low both)
    have one := mul_nonneg turn1.le (sub_nonneg.mpr low)
    have two := mul_nonneg turn3.le (sub_nonneg.mpr (even.mp low))
    have three := mul_pos turn2 (sub_pos.mpr (not_le.mp high))
    have four := mul_pos turn0 (sub_pos.mpr (not_le.mp fun other => high (odd.mpr other)))
    linarith
  · have high : (quad.corner 1).2 ≤ q.2 := by
      by_contra both
      exact differ (iff_of_false low both)
    have one := mul_pos turn1 (sub_pos.mpr (not_le.mp low))
    have two := mul_pos turn3 (sub_pos.mpr (not_le.mp fun other => low (even.mpr other)))
    have three := mul_nonneg turn2.le (sub_nonneg.mpr high)
    have four := mul_nonneg turn0.le (sub_nonneg.mpr (odd.mp high))
    linarith

/-- From an inner point, an edge is passed if it goes up on a quadrilateral that turns left. -/
theorem crosses_inner (inner : ∀ i, 0 < quad.side i q) (i : Fin 4) :
    crosses (quad.corner (i + 1)) (quad.corner i) q =
      ((reaches (quad.corner i) q != reaches (quad.corner (i + 1)) q) &&
        reaches (quad.corner i) q == decide (0 < turn (quad.corner 0) (quad.corner 1) (quad.corner 2))) := by
  have here := inner i
  rw [crosses_comm, crosses]
  by_cases same : reaches (quad.corner i) q = reaches (quad.corner (i + 1)) q
  · simp [same]
  congr 1
  have slanted : (quad.corner i).2 ≠ (quad.corner (i + 1)).2 := by
    intro level
    apply same
    rw [reaches, reaches, level]
  rw [side, turn_eq_crossing slanted] at here
  simp only [reaches, decide_eq_decide] at same ⊢
  generalize turn (quad.corner 0) (quad.corner 1) (quad.corner 2) = turning at *
  generalize quad.corner i = a, quad.corner (i + 1) = b at *
  by_cases low : a.2 ≤ q.2
  · have rise : 0 < b.2 - a.2 := by linarith [not_le.mp fun both => same (iff_of_true low both)]
    have positive : 0 < turning * (crossingX a b q - q.1) := by
      rw [mul_left_comm] at here
      exact (mul_pos_iff_of_pos_left rise).mp here
    rw [decide_eq_true low, Bool.true_beq, decide_eq_decide, pos_iff_pos_of_mul_pos positive, sub_pos]
  · have fall : 0 < a.2 - b.2 := by
      have reached : b.2 ≤ q.2 := by
        by_contra both
        exact same (iff_of_false low both)
      linarith
    have positive : 0 < turning * (q.1 - crossingX a b q) := by
      have split : turning * ((b.2 - a.2) * (crossingX a b q - q.1)) = (a.2 - b.2) * (turning * (q.1 - crossingX a b q)) := by ring
      rw [split] at here
      exact (mul_pos_iff_of_pos_left fall).mp here
    have apart : turning ≠ 0 := left_ne_zero_of_mul positive.ne'
    rw [decide_eq_false low, Bool.false_beq, ← decide_not, decide_eq_decide, not_lt, apart.le_iff_lt,
      neg_iff_neg_of_mul_pos positive, sub_neg]

theorem odd_turns : ∀ r0 r1 r2 r3 left : Bool, ¬ (r1 = r0 ∧ r2 = r0 ∧ r3 = r0) → ¬ (r0 = r2 ∧ r1 = r3 ∧ r0 ≠ r1) →
    (((r0 != r1) && r0 == left) ^^ (((r1 != r2) && r1 == left) ^^ (((r2 != r3) && r2 == left) ^^ ((r3 != r0) && r3 == left)))) = true := by
  decide

theorem inside_inner (inner : ∀ i, 0 < quad.side i q) : inside quad.ring q = true := by
  obtain ⟨high, isHigh⟩ := exists_higher inner one_ne_zero
  obtain ⟨low, isLow⟩ := exists_higher inner (neg_ne_zero.mpr one_ne_zero)
  have reached : reaches (quad.corner low) q = true := decide_eq_true (by linarith)
  have unreached : reaches (quad.corner high) q = false := decide_eq_false (not_le.mpr (by linarith))
  have mixed : ¬ (reaches (quad.corner 1) q = reaches (quad.corner 0) q ∧ reaches (quad.corner 2) q = reaches (quad.corner 0) q ∧
      reaches (quad.corner 3) q = reaches (quad.corner 0) q) := by
    rintro ⟨same1, same2, same3⟩
    have same (i : Fin 4) : reaches (quad.corner i) q = reaches (quad.corner 0) q := by
      match i with
      | 0 => rfl
      | 1 => exact same1
      | 2 => exact same2
      | 3 => exact same3
    rw [same, ← same high, unreached] at reached
    cases reached
  have notAlternating := quad.not_alternating q
  have edge0 := crosses_inner inner 0
  have edge1 := crosses_inner inner 1
  have edge2 := crosses_inner inner 2
  have edge3 := crosses_inner inner 3
  simp only [Fin.reduceAdd] at edge0 edge1 edge2 edge3
  rw [ring, inside_cons]
  simp only [List.cons_append, List.nil_append, parity, edge0, edge1, edge2, edge3, crosses_self, Bool.xor_false]
  exact odd_turns _ _ _ _ _ mixed notAlternating

theorem area_eq_convexHull (quad : Quad K) : quad.area = convexHull K (Set.range quad.corner) := by
  apply Set.Subset.antisymm
  · intro q inArea
    by_cases inner : ∀ i, 0 < quad.side i q
    · exact convexHull_mono quad.ring_subset (mem_convexHull_of_inside (inside_inner inner))
    · obtain ⟨i, atEdge⟩ := not_forall.mp inner
      have onEdge := mem_edge inArea (le_antisymm (not_lt.mp atEdge) (inArea i))
      exact segment_subset_convexHull (Set.mem_range_self _) (Set.mem_range_self _) onEdge
  · apply convexHull_min _ quad.convex_area
    rintro _ ⟨i, rfl⟩
    exact quad.corner_mem i

theorem mem_area_of_inside (isInside : inside quad.ring q = true) : q ∈ quad.area := by
  rw [area_eq_convexHull]
  exact convexHull_mono quad.ring_subset (mem_convexHull_of_inside isInside)

variable {other : Quad K}

def EdgesApart (quad other : Quad K) : Prop := ∀ i j, ¬ (quad.edge i ∩ other.edge j).Nonempty

omit [IsStrictOrderedRing K] in
theorem EdgesApart.symm (apart : EdgesApart quad other) : EdgesApart other quad := by
  intro i j both
  rw [Set.inter_comm] at both
  exact apart j i both

theorem corner_mem_of_edge (apart : EdgesApart quad other) {i : Fin 4} (onEdge : p ∈ quad.edge i) (inOther : p ∈ other.area) :
    quad.corner i ∈ other.area ∧ quad.corner (i + 1) ∈ other.area := by
  have stays {q : K × K} (end' : q ∈ quad.edge i) : q ∈ other.area := by
    by_contra outside
    obtain ⟨j, x, onSegment, onOther⟩ := exists_exit inOther outside
    exact apart i j ⟨x, (convex_segment ..).segment_subset onEdge end' onSegment, onOther⟩
  exact ⟨stays (left_mem_segment K _ _), stays (right_mem_segment K _ _)⟩

theorem corners_mem (apart : EdgesApart quad other) {i : Fin 4} (onEdge : p ∈ quad.edge i) (inOther : p ∈ other.area) (j : Fin 4) :
    quad.corner j ∈ other.area := by
  obtain ⟨k, rfl⟩ : ∃ k, j = i + k := ⟨j - i, (add_sub_cancel i j).symm⟩
  induction k using Fin.induction with
  | zero =>
    rw [add_zero]
    exact (corner_mem_of_edge apart onEdge inOther).1
  | succ k ih =>
    rw [← Fin.coeSucc_eq_succ, ← add_assoc]
    exact (corner_mem_of_edge apart (left_mem_segment K _ _) ih).2

theorem corner_inner (apart : EdgesApart quad other) (inOther : quad.corner 0 ∈ other.area) : ∀ i, 0 < other.side i (quad.corner 0) := by
  intro i
  apply (inOther i).lt_of_ne'
  intro onLine
  exact apart 0 i ⟨quad.corner 0, left_mem_segment K _ _, mem_edge inOther onLine⟩

/-- Two areas have a common point if edges have one, or an area has the first corner of the other one inside. -/
theorem areas_meet_iff : (quad.area ∩ other.area).Nonempty ↔
    ¬ EdgesApart quad other ∨ inside quad.ring (other.corner 0) = true ∨ inside other.ring (quad.corner 0) = true := by
  constructor
  · rintro ⟨p, inQuad, inOther⟩
    by_contra none
    rw [not_or, not_not, not_or] at none
    obtain ⟨apart, notOther, notQuad⟩ := none
    apply notOther
    apply inside_inner
    apply corner_inner apart.symm
    by_contra outside
    obtain ⟨i, x, onSegment, onEdge⟩ := exists_exit inQuad outside
    have inBoth := other.convex_area.segment_subset inOther (other.corner_mem 0) onSegment
    exact notQuad (inside_inner (corner_inner apart (corners_mem apart onEdge inBoth 0)))
  · rintro (touching | isInside | isInside)
    · obtain ⟨i, j, x, onEdge, onOther⟩ : ∃ i j, (quad.edge i ∩ other.edge j).Nonempty := by simpa [EdgesApart] using touching
      exact ⟨x, quad.edge_subset i onEdge, other.edge_subset j onOther⟩
    · exact ⟨_, mem_area_of_inside isInside, other.corner_mem 0⟩
    · exact ⟨_, quad.corner_mem 0, mem_area_of_inside isInside⟩

end Quad
end Lib.ConvexQuads

import Mathlib.Analysis.Convex.Basic
import MapServer.Lib.Segments
import MapServer.Primitive.ClipLine

namespace MapServer
open Lib.Segments

section Field
variable {K : Type} [Field K] [LinearOrder K]

def area (rect : RectObj K) : Set (K × K) :=
  {p | (rect.minx ≤ p.1 ∧ p.1 ≤ rect.maxx) ∧ rect.miny ≤ p.2 ∧ p.2 ≤ rect.maxy}

def between (min max : K) : Set (K × K) := {p | min ≤ p.1 ∧ p.1 ≤ max}

omit [Field K] in
theorem area_eq (rect : RectObj K) :
    area rect = between rect.minx rect.maxx ∩ Set.preimage Prod.swap (between rect.miny rect.maxy) := rfl

variable {min max : K} {a b a' b' : K × K}

omit [Field K] in
theorem check_left (x : K) : CLIP_CHECK min x max = .CLIP_LEFT ↔ x < min := by
  unfold CLIP_CHECK
  split_ifs with left right <;> simp [left]

omit [Field K] in
theorem check_right (order : min ≤ max) (x : K) : CLIP_CHECK min x max = .CLIP_RIGHT ↔ max < x := by
  unfold CLIP_CHECK
  split_ifs with left right
  · simp [(left.trans_le order).le]
  · simp [right]
  · simp [right]

omit [LinearOrder K] in
theorem clipEnd_first (side check1 check2 : CLIP_STATE) (edge : K) (a b : K × K) :
    (clipEnd side check1 check2 edge a b).1.1 = if check1 = side then edge else a.1 := by
  unfold clipEnd
  split_ifs with some one <;> simp_all

omit [LinearOrder K] in
theorem clipEnd_second {side check1 check2 : CLIP_STATE} (notBoth : ¬ (check1 = side ∧ check2 = side)) (edge : K)
    (a b : K × K) : (clipEnd side check1 check2 edge a b).2.1 = if check2 = side then edge else b.1 := by
  unfold clipEnd
  split_ifs with some one <;> simp_all

variable [IsStrictOrderedRing K]

theorem clipEnd_cut {side check1 check2 : CLIP_STATE} {edge sign : K} (first : check1 = side ↔ a ∉ sideOf sign edge)
    (second : check2 = side ↔ b ∉ sideOf sign edge) (notBoth : ¬ (check1 = side ∧ check2 = side)) :
    Cut (sideOf sign edge) a b (clipEnd side check1 check2 edge a b).1 (clipEnd side check1 check2 edge a b).2 := by
  unfold clipEnd
  by_cases outA : check1 = side
  · have inB := not_not.mp (second.not.mp fun outB => notBoth ⟨outA, outB⟩)
    rw [if_pos (.inl outA)]
    rw [if_pos outA]
    exact Cut.enter (first.mp outA) inB
  · have inA := not_not.mp (first.not.mp outA)
    by_cases outB : check2 = side
    · rw [if_pos (.inr outB)]
      rw [if_neg outA]
      exact Cut.leave inA (second.mp outB)
    · rw [if_neg (by rw [not_or]; exact ⟨outA, outB⟩)]
      exact Cut.whole inA (not_not.mp (second.not.mp outB))

theorem sideOf_inter (min max : K) : sideOf 1 min ∩ sideOf (-1) max = between min max := by
  ext p
  simp [sideOf, between]

theorem right_of_moved (order : min ≤ max) {x : K} {moved : K × K}
    (isMoved : moved.1 = if CLIP_CHECK min x max = .CLIP_LEFT then min else x) :
    CLIP_CHECK min x max = .CLIP_RIGHT ↔ moved ∉ sideOf (-1) max := by
  have outside : moved ∉ sideOf (-1) max ↔ max < moved.1 := by simp [sideOf]
  rw [outside, isMoved]
  split
  · rename_i left
    rw [left]
    exact iff_of_false (by simp) order.not_gt
  · exact check_right order x

theorem clipSides_some (order : min ≤ max) (clipped : clipSides min max a b = some (a', b')) :
    Cut (between min max) a b a' b' := by
  unfold clipSides at clipped
  split at clipped
  · cases clipped
  rename_i notLeft
  split at clipped
  · cases clipped
  rename_i notRight
  have notBoth : ¬ (CLIP_CHECK min a.1 max = .CLIP_LEFT ∧ CLIP_CHECK min b.1 max = .CLIP_LEFT) := by
    simpa only [check_left] using notLeft
  have left : Cut (sideOf 1 min) a b (clipEnd .CLIP_LEFT (CLIP_CHECK min a.1 max) (CLIP_CHECK min b.1 max) min a b).1
      (clipEnd .CLIP_LEFT (CLIP_CHECK min a.1 max) (CLIP_CHECK min b.1 max) min a b).2 :=
    clipEnd_cut (by simp [check_left, sideOf]) (by simp [check_left, sideOf]) notBoth
  have right := clipEnd_cut
    (right_of_moved order (clipEnd_first .CLIP_LEFT (CLIP_CHECK min a.1 max) (CLIP_CHECK min b.1 max) min a b))
    (right_of_moved order (clipEnd_second notBoth min a b)) (by simpa only [check_right order] using notRight)
  dsimp only at clipped
  generalize clipEnd .CLIP_LEFT (CLIP_CHECK min a.1 max) (CLIP_CHECK min b.1 max) min a b = moved at left right clipped
  obtain ⟨p1, p2⟩ := moved
  have whole := left.trans right
  rw [sideOf_inter] at whole
  rwa [Option.some.inj clipped] at whole

theorem clipSides_none (clipped : clipSides min max a b = none) : segment K a b ∩ between min max = ∅ := by
  rw [Set.eq_empty_iff_forall_notMem]
  rintro p ⟨onSegment, low, high⟩
  obtain ⟨t, lowT, highT, rfl⟩ := mem_segment_iff.mp onSegment
  have mean : (along a b t).1 = (1 - t) * a.1 + t * b.1 := by
    simp only [along]
    ring
  have room : 0 ≤ 1 - t := sub_nonneg.mpr highT
  rw [mean] at low high
  unfold clipSides at clipped
  split at clipped
  · rename_i left
    have below : (1 - t) * a.1 + t * b.1 < min := by
      rcases lowT.eq_or_lt with rfl | positive
      · linarith [left.1]
      · linarith [mul_le_mul_of_nonneg_left left.1.le room, mul_lt_mul_of_pos_left left.2 positive]
    exact below.not_ge low
  · split at clipped
    · rename_i right
      have above : max < (1 - t) * a.1 + t * b.1 := by
        rcases lowT.eq_or_lt with rfl | positive
        · linarith [right.1]
        · linarith [mul_le_mul_of_nonneg_left right.1.le room, mul_lt_mul_of_pos_left right.2 positive]
      exact above.not_ge high
    · cases clipped

variable {rect : RectObj K}

theorem clipLine_some (across : rect.minx ≤ rect.maxx) (up : rect.miny ≤ rect.maxy)
    (clipped : clipLine a b rect = some (a', b')) : Cut (area rect) a b a' b' := by
  obtain ⟨⟨c, d⟩, first, rest⟩ := Option.bind_eq_some_iff.mp clipped
  obtain ⟨⟨e, f⟩, second, rest⟩ := Option.bind_eq_some_iff.mp rest
  cases rest
  rw [area_eq]
  exact (clipSides_some across first).trans (clipSides_some up second).swap

theorem clipLine_none (across : rect.minx ≤ rect.maxx) (clipped : clipLine a b rect = none) :
    segment K a b ∩ area rect = ∅ := by
  rw [area_eq, ← Set.inter_assoc]
  cases first : clipSides rect.minx rect.maxx a b with
  | none => rw [clipSides_none first, Set.empty_inter]
  | some ends =>
    obtain ⟨c, d⟩ := ends
    have second : clipSides rect.miny rect.maxy c.swap d.swap = none := by
      cases here : clipSides rect.miny rect.maxy c.swap d.swap with
      | none => rfl
      | some ends => simp [clipLine, first, here] at clipped
    rw [← (clipSides_some across first).same, Set.eq_empty_iff_forall_notMem]
    rintro p ⟨onSegment, inside⟩
    exact Set.eq_empty_iff_forall_notMem.mp (clipSides_none second) p.swap ⟨mem_segment_swap.mpr onSegment, inside⟩

theorem area_convex (rect : RectObj K) : Convex K (area rect) :=
  (convex_Icc rect.minx rect.maxx).prod (convex_Icc rect.miny rect.maxy)

end Field
end MapServer

import MapServer.Lib.Segments
import MapServer.Primitive.PixelTransform
import MapServer.Spatial.Intersections

namespace MapServer
open Lib.Segments

section Field
variable {K : Type} [Field K] [LinearOrder K] [IsStrictOrderedRing K]

theorem between_iff {low high : K} (differ : low ≠ high) (t : K) :
    (low + t * (high - low) ≥ MS_MIN low high ∧ low + t * (high - low) ≤ MS_MAX low high) ↔ 0 ≤ t ∧ t ≤ 1 := by
  unfold MS_MIN MS_MAX
  rcases lt_or_gt_of_ne differ with up | down
  · have room : 0 < high - low := sub_pos.mpr up
    rw [if_pos up, if_neg up.not_gt]
    constructor
    · rintro ⟨first, second⟩
      exact ⟨nonneg_of_mul_nonneg_left (by linarith) room, le_of_mul_le_mul_right (by linarith) room⟩
    · rintro ⟨first, second⟩
      exact ⟨by linarith [mul_nonneg first room.le], by linarith [mul_le_mul_of_nonneg_right second room.le]⟩
  · have room : 0 < low - high := sub_pos.mpr down
    rw [if_neg down.not_gt, if_pos down]
    constructor
    · rintro ⟨first, second⟩
      exact ⟨nonneg_of_mul_nonneg_left (by linarith) room, le_of_mul_le_mul_right (by linarith) room⟩
    · rintro ⟨first, second⟩
      exact ⟨by linarith [mul_le_mul_of_nonneg_right second room.le], by linarith [mul_nonneg first room.le]⟩

def coincidentMeet (a b c d : PointObj K) : Bool :=
  if a.y = c.y then
    decide ((a.x ≥ MS_MIN c.x d.x ∧ a.x ≤ MS_MAX c.x d.x) ∨ (b.x ≥ MS_MIN c.x d.x ∧ b.x ≤ MS_MAX c.x d.x))
  else decide ((a.y ≥ MS_MIN c.y d.y ∧ a.y ≤ MS_MAX c.y d.y) ∨ (b.y ≥ MS_MIN c.y d.y ∧ b.y ≤ MS_MAX c.y d.y))

variable {a b c d : PointObj K}

theorem msIntersectSegments_crossing (crossing : cross (b.xy - a.xy) (d.xy - c.xy) ≠ 0) :
    msIntersectSegments a b c d = true ↔ Meet a.xy b.xy c.xy d.xy := by
  rw [meet_iff_of_crossing crossing rfl rfl]
  simp only [cross, PointObj.xy, Prod.fst_sub, Prod.snd_sub] at crossing ⊢
  have isR : (d.x - c.x) * (a.y - c.y) - (d.y - c.y) * (a.x - c.x) = (a.y - c.y) * (d.x - c.x) - (a.x - c.x) * (d.y - c.y) := by
    ring
  have isS : (b.x - a.x) * (a.y - c.y) - (b.y - a.y) * (a.x - c.x) = (a.y - c.y) * (b.x - a.x) - (a.x - c.x) * (b.y - a.y) := by
    ring
  rw [isR, isS]
  unfold msIntersectSegments
  dsimp only
  rw [if_neg fun both => crossing both.1, if_neg crossing]
  split
  · rename_i outside
    apply iff_of_false (by simp)
    rintro ⟨⟨low, high⟩, -⟩
    exact outside.elim low.not_gt high.not_gt
  · rename_i within
    rw [not_or, not_lt, not_lt] at within
    simp [within]

theorem msIntersectSegments_parallel (parallel : cross (b.xy - a.xy) (d.xy - c.xy) = 0)
    (apart : cross (d.xy - c.xy) (a.xy - c.xy) ≠ 0) : msIntersectSegments a b c d = false := by
  simp only [cross, PointObj.xy, Prod.fst_sub, Prod.snd_sub] at parallel apart
  have distant : (a.y - c.y) * (d.x - c.x) - (a.x - c.x) * (d.y - c.y) ≠ 0 := by
    intro zero
    apply apart
    linear_combination zero
  unfold msIntersectSegments
  rw [if_neg fun both => distant both.2, if_pos parallel]

theorem msIntersectSegments_coincident (parallel : cross (b.xy - a.xy) (d.xy - c.xy) = 0)
    (line : cross (d.xy - c.xy) (a.xy - c.xy) = 0) : msIntersectSegments a b c d = coincidentMeet a b c d := by
  simp only [cross, PointObj.xy, Prod.fst_sub, Prod.snd_sub] at parallel line
  unfold msIntersectSegments coincidentMeet
  rw [if_pos ⟨parallel, by linear_combination line⟩]

theorem coincidentMeet_iff (differ : c.xy ≠ d.xy) (lineA : cross (d.xy - c.xy) (a.xy - c.xy) = 0)
    (lineB : cross (d.xy - c.xy) (b.xy - c.xy) = 0) :
    coincidentMeet a b c d = true ↔ a.xy ∈ segment K c.xy d.xy ∨ b.xy ∈ segment K c.xy d.xy := by
  obtain ⟨s, isA⟩ := exists_along differ lineA
  obtain ⟨t, isB⟩ := exists_along differ lineB
  rw [← isA, ← isB, along_mem_iff differ, along_mem_iff differ]
  have ax : c.x + s * (d.x - c.x) = a.x := congrArg Prod.fst isA
  have ay : c.y + s * (d.y - c.y) = a.y := congrArg Prod.snd isA
  have bx : c.x + t * (d.x - c.x) = b.x := congrArg Prod.fst isB
  have byy : c.y + t * (d.y - c.y) = b.y := congrArg Prod.snd isB
  unfold coincidentMeet
  by_cases level : a.y = c.y
  · rw [if_pos level, decide_eq_true_iff]
    by_cases across : c.x = d.x
    · -- the line is upright, and `a` is its point `c`
      have up : d.y - c.y ≠ 0 := fun zero => differ (Prod.ext across (sub_eq_zero.mp zero).symm)
      have atC : s = 0 := by
        apply (mul_eq_zero.mp _).resolve_right up
        linear_combination ay + level
      have same : a.x = c.x := by rw [← ax, atC, zero_mul, add_zero]
      apply iff_of_true
      · left
        simp [same, MS_MIN, MS_MAX, across]
      · exact .inl (by simp [atC])
    · rw [← ax, ← bx, between_iff across, between_iff across]
  · rw [if_neg level, decide_eq_true_iff]
    have up : c.y ≠ d.y := by
      intro same
      apply level
      rw [← ay, same, sub_self, mul_zero, add_zero]
    rw [← ay, ← byy, between_iff up, between_iff up]

def Covered (a b c d : K × K) : Prop :=
  (c ∈ segment K a b ∧ d ∈ segment K a b) ∧ a ∉ segment K c d ∧ b ∉ segment K c d

/-- A point beside the first segment that is level with `a` and above or below `b`, or only level with `b`. -/
def TakenForMet (a b c d : K × K) : Prop := c = d ∧ c ∉ segment K a b ∧ if a.2 = c.2 then b.1 = c.1 else b.2 = c.2

omit [Field K] [IsStrictOrderedRing K] in
theorem coincidentMeet_point (same : c.xy = d.xy) :
    coincidentMeet a b c d = true ↔ if a.y = c.y then a.x = c.x ∨ b.x = c.x else b.y = c.y := by
  have x : d.x = c.x := (congrArg Prod.fst same).symm
  have y : d.y = c.y := (congrArg Prod.snd same).symm
  have atPoint (u v : K) : (u ≥ MS_MIN v v ∧ u ≤ MS_MAX v v) ↔ u = v := by
    simp [MS_MIN, MS_MAX, le_antisymm_iff, and_comm]
  unfold coincidentMeet
  rw [x, y]
  split
  · rw [decide_eq_true_iff, atPoint, atPoint]
  · rename_i apart
    rw [decide_eq_true_iff, atPoint, atPoint, or_iff_right apart]

theorem meet_point : Meet a.xy b.xy c.xy c.xy ↔ c.xy ∈ segment K a.xy b.xy := by
  constructor
  · rintro ⟨p, onFirst, onPoint⟩
    rwa [mem_segment_self.mp onPoint] at onFirst
  · intro onFirst
    exact ⟨_, onFirst, left_mem_segment K _ _⟩

theorem level_of_mem (onSegment : c.xy ∈ segment K a.xy b.xy) (notA : c.xy ≠ a.xy) (notB : c.xy ≠ b.xy) :
    if a.y = c.y then a.x ≠ c.x ∧ b.x ≠ c.x else b.y ≠ c.y := by
  obtain ⟨t, -, -, isC⟩ := mem_segment_iff.mp onSegment
  have y : a.y + t * (b.y - a.y) = c.y := congrArg Prod.snd isC
  have start : t ≠ 0 := by
    rintro rfl
    exact notA (isC.symm.trans (along_zero ..))
  have rest : 1 - t ≠ 0 := by
    intro stop
    rw [← sub_eq_zero.mp stop, along_one] at isC
    exact notB isC.symm
  split
  · rename_i level
    have flat : b.y = c.y := by
      apply sub_eq_zero.mp
      apply (mul_eq_zero.mp _).resolve_left start
      linear_combination y + (t - 1) * level
    refine ⟨fun same => notA (Prod.ext same.symm level.symm), fun same => notB (Prod.ext same.symm flat.symm)⟩
  · rename_i slanted
    intro same
    apply slanted
    apply sub_eq_zero.mp
    apply (mul_eq_zero.mp _).resolve_left rest
    linear_combination y - t * same

/-- For a point, the test goes wrong at the inner points of the segment and at those that are taken to be met. -/
theorem point_exact_iff (same : c.xy = d.xy) : (coincidentMeet a b c d = true ↔ Meet a.xy b.xy c.xy d.xy) ↔
    ¬ Covered a.xy b.xy c.xy d.xy ∧ ¬ TakenForMet a.xy b.xy c.xy d.xy := by
  rw [coincidentMeet_point same, ← same, meet_point, Covered, TakenForMet, mem_segment_self, mem_segment_self]
  by_cases onSegment : c.xy ∈ segment K a.xy b.xy
  · by_cases isA : a.xy = c.xy
    · have x : a.x = c.x := congrArg Prod.fst isA
      have y : a.y = c.y := congrArg Prod.snd isA
      exact iff_of_true (iff_of_true (by simp [x, y]) onSegment)
        ⟨fun covered => covered.2.1 isA, fun taken => taken.2.1 onSegment⟩
    · by_cases isB : b.xy = c.xy
      · have x : b.x = c.x := congrArg Prod.fst isB
        have y : b.y = c.y := congrArg Prod.snd isB
        exact iff_of_true (iff_of_true (by simp [x, y]) onSegment)
          ⟨fun covered => covered.2.2 isB, fun taken => taken.2.1 onSegment⟩
      · have away := level_of_mem onSegment (Ne.symm isA) (Ne.symm isB)
        have notMet : ¬ if a.y = c.y then a.x = c.x ∨ b.x = c.x else b.y = c.y := by
          split at away
          · rw [if_pos ‹_›, not_or]
            exact away
          · rwa [if_neg ‹_›]
        simp [onSegment, notMet, isA, isB]
  · have notA : ¬ (a.y = c.y ∧ a.x = c.x) := by
      rintro ⟨y, x⟩
      apply onSegment
      have isA : c.xy = a.xy := Prod.ext x.symm y.symm
      rw [isA]
      exact left_mem_segment K _ _
    have met : (if a.y = c.y then a.x = c.x ∨ b.x = c.x else b.y = c.y) ↔
        if a.xy.2 = c.xy.2 then b.xy.1 = c.xy.1 else b.xy.2 = c.xy.2 := by
      by_cases level : a.y = c.y
      · have apart : a.x ≠ c.x := fun x => notA ⟨level, x⟩
        simp [PointObj.xy, level, apart]
      · simp [PointObj.xy, level]
    rw [met]
    simp [onSegment]

theorem segments_exact_iff (a b c d : PointObj K) : (msIntersectSegments a b c d = true ↔ Meet a.xy b.xy c.xy d.xy) ↔
    ¬ Covered a.xy b.xy c.xy d.xy ∧ ¬ TakenForMet a.xy b.xy c.xy d.xy := by
  have notTaken : cross (b.xy - a.xy) (d.xy - c.xy) ≠ 0 ∨ cross (d.xy - c.xy) (a.xy - c.xy) ≠ 0 →
      ¬ Covered a.xy b.xy c.xy d.xy ∧ ¬ TakenForMet a.xy b.xy c.xy d.xy := by
    intro apart
    constructor
    · rintro ⟨⟨inC, inD⟩, -⟩
      have line := cross_of_mem inC inD
      exact apart.elim (· line.1) (· line.2)
    · rintro ⟨same, -⟩
      simp [same, cross] at apart
  by_cases parallel : cross (b.xy - a.xy) (d.xy - c.xy) = 0
  · by_cases line : cross (d.xy - c.xy) (a.xy - c.xy) = 0
    · rw [msIntersectSegments_coincident parallel line]
      by_cases same : c.xy = d.xy
      · exact point_exact_iff same
      · have lineB : cross (d.xy - c.xy) (b.xy - c.xy) = 0 := by
          simp only [cross, Prod.fst_sub, Prod.snd_sub] at parallel line ⊢
          linear_combination line - parallel
        rw [coincidentMeet_iff same line lineB, meet_iff_of_collinear same line lineB, Covered, TakenForMet]
        tauto
    · apply iff_of_true _ (notTaken (.inr line))
      rw [msIntersectSegments_parallel parallel line]
      exact iff_of_false Bool.false_ne_true (not_meet_of_parallel parallel line)
  · exact iff_of_true (msIntersectSegments_crossing parallel) (notTaken (.inl parallel))

theorem meet_of_msIntersectSegments (differ : c.xy ≠ d.xy) (found : msIntersectSegments a b c d = true) :
    Meet a.xy b.xy c.xy d.xy := by
  by_cases covered : Covered a.xy b.xy c.xy d.xy
  · exact ⟨c.xy, covered.1.1, left_mem_segment K _ _⟩
  · exact ((segments_exact_iff a b c d).mpr ⟨covered, fun taken => differ taken.1⟩).mp found

theorem msIntersectSegments_of_meet (differ : c.xy ≠ d.xy) (meets : Meet a.xy b.xy c.xy d.xy)
    (notCovered : ¬ Covered a.xy b.xy c.xy d.xy) : msIntersectSegments a b c d = true :=
  ((segments_exact_iff a b c d).mpr ⟨notCovered, fun taken => differ taken.1⟩).mpr meets

end Field

/-- The test is exact, unless the second segment is covered or is a point that is taken to be met. -/
theorem msIntersectSegments_exact_iff (a b c d : PointObj ℚ) :
    (msIntersectSegments a b c d = true ↔ Meet a.xy b.xy c.xy d.xy) ↔
      ¬ Covered a.xy b.xy c.xy d.xy ∧ ¬ TakenForMet a.xy b.xy c.xy d.xy :=
  segments_exact_iff a b c d

def axisPoint (x : ℚ) : PointObj ℚ := ⟨x, 0, 0, 0⟩

/-- A segment is not found to meet one that it covers, and the other way round it is. -/
theorem msIntersectSegments_covered :
    ¬ ∀ a b c d : PointObj ℚ, msIntersectSegments a b c d = true ↔ Meet a.xy b.xy c.xy d.xy := by
  intro always
  have forth := always (axisPoint 0) (axisPoint 3) (axisPoint 1) (axisPoint 2)
  have back := always (axisPoint 1) (axisPoint 2) (axisPoint 0) (axisPoint 3)
  rw [Meet, Set.inter_comm, ← Meet, ← back] at forth
  revert forth
  decide +kernel

end MapServer

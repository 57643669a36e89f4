import MapServer.Lib.ConvexQuads
import MapServer.Primitive.ClippedSegments
import MapServer.Primitive.RingNesting
import MapServer.Spatial.SegmentsMeet

/-! `intersectLabelPolygons` of `maplabel.c`, on exact coordinates. A polygon has a point. -/

namespace MapServer
open Lib.ConvexQuads Lib.EvenOdd Lib.Segments

section Model
variable {K : Type} [Field K] [LinearOrder K]

/-- The points that stand for a rectangle, `pnts1` or `pnts2`. -/
def rectPoints (r : RectObj K) : LineObj K :=
  [⟨r.minx, r.miny, 0, 0⟩, ⟨r.minx, r.maxy, 0, 0⟩, ⟨r.maxx, r.maxy, 0, 0⟩, ⟨r.maxx, r.miny, 0, 0⟩, ⟨r.minx, r.miny, 0, 0⟩]

def anySegmentsMeet (p1 p2 : LineObj K) : Bool :=
  (segments p1).any fun first => (segments p2).any fun second => msIntersectSegments first.1 first.2 second.1 second.2

/-- `none` is a `NULL` polygon. -/
def intersectLabelPolygons (l1 : Option (LineObj K)) (r1 : RectObj K) (l2 : Option (LineObj K)) (r2 : RectObj K) : Bool :=
  if !msRectOverlap r1 r2 then false
  else if l1.isNone && l2.isNone then true
  else
    let p1 := l1.getD (rectPoints r1)
    let p2 := l2.getD (rectPoints r2)
    if anySegmentsMeet p1 p2 then true
    else if p2.head?.any fun point => msPointInPolygon point p1 then true
    else p1.head?.any fun point => msPointInPolygon point p2

end Model

variable {K : Type} [Field K] [LinearOrder K]

section Rings
variable {points : LineObj K} {quad : Quad K}

theorem exists_points (ring : points.map PointObj.xy = quad.ring) : ∃ a b c d e : PointObj K, points = [a, b, c, d, e] ∧
    a.xy = quad.corner 0 ∧ b.xy = quad.corner 1 ∧ c.xy = quad.corner 2 ∧ d.xy = quad.corner 3 ∧ e.xy = quad.corner 0 := by
  have five := congrArg List.length ring
  rw [List.length_map] at five
  match points, five with
  | [a, b, c, d, e], _ =>
    simp only [Quad.ring, List.map_cons, List.map_nil, List.cons.injEq, and_true] at ring
    exact ⟨a, b, c, d, e, rfl, ring⟩

theorem head?_ring (ring : points.map PointObj.xy = quad.ring) (test : PointObj K → Bool) (result : K × K → Bool)
    (same : ∀ p, test p = result p.xy) : points.head?.any test = result (quad.corner 0) := by
  obtain ⟨a, b, c, d, e, rfl, isA, -⟩ := exists_points ring
  rw [List.head?_cons, Option.any_some, same, isA]

theorem segment_of_ring (ring : points.map PointObj.xy = quad.ring) {s : PointObj K × PointObj K} (member : s ∈ segments points) :
    ∃ i, s.1.xy = quad.corner i ∧ s.2.xy = quad.corner (i + 1) := by
  obtain ⟨a, b, c, d, e, rfl, isA, isB, isC, isD, isE⟩ := exists_points ring
  have among : s = (a, b) ∨ s = (b, c) ∨ s = (c, d) ∨ s = (d, e) := by simpa [segments] using member
  rcases among with rfl | rfl | rfl | rfl
  · exact ⟨0, isA, isB⟩
  · exact ⟨1, isB, isC⟩
  · exact ⟨2, isC, isD⟩
  · exact ⟨3, isD, isE⟩

theorem exists_segment (ring : points.map PointObj.xy = quad.ring) (i : Fin 4) :
    ∃ s ∈ segments points, s.1.xy = quad.corner i ∧ s.2.xy = quad.corner (i + 1) := by
  obtain ⟨a, b, c, d, e, rfl, isA, isB, isC, isD, isE⟩ := exists_points ring
  match i with
  | 0 => exact ⟨(a, b), by simp [segments], isA, isB⟩
  | 1 => exact ⟨(b, c), by simp [segments], isB, isC⟩
  | 2 => exact ⟨(c, d), by simp [segments], isC, isD⟩
  | 3 => exact ⟨(d, e), by simp [segments], isD, isE⟩

variable [IsStrictOrderedRing K] {points' : LineObj K} {quad' : Quad K}

theorem cross_after (quad : Quad K) {i : Fin 4} {a b : K × K} (start : quad.corner i ∈ segment K a b)
    (stop : quad.corner (i + 1) ∈ segment K a b) : cross (b - a) (quad.corner (i + 2) - quad.corner (i + 1)) ≠ 0 := by
  have turns := right_ne_zero_of_mul (quad.convex i).ne'
  obtain ⟨s, -, -, isStart⟩ := mem_segment_iff.mp start
  obtain ⟨t, -, -, isStop⟩ := mem_segment_iff.mp stop
  intro parallel
  apply turns
  rw [← isStart, ← isStop]
  rw [← isStop] at parallel
  simp only [turn, cross, along, Prod.fst_sub, Prod.snd_sub] at parallel ⊢
  linear_combination (t - s) * parallel

/-- Between quadrilaterals the test of the segments is exact: where an edge is covered, the next one is met. -/
theorem anySegmentsMeet_iff (ring : points.map PointObj.xy = quad.ring) (ring' : points'.map PointObj.xy = quad'.ring) :
    anySegmentsMeet points points' = true ↔ ¬ quad.EdgesApart quad' := by
  simp only [anySegmentsMeet, List.any_eq_true, Quad.EdgesApart, not_forall, not_not]
  constructor
  · rintro ⟨s, member, s', member', found⟩
    obtain ⟨i, isStart, isStop⟩ := segment_of_ring ring member
    obtain ⟨j, isStart', isStop'⟩ := segment_of_ring ring' member'
    have differ : s'.1.xy ≠ s'.2.xy := by
      rw [isStart', isStop']
      exact quad'.corner_ne j
    have meets := meet_of_msIntersectSegments differ found
    rw [isStart, isStop, isStart', isStop'] at meets
    exact ⟨i, j, meets⟩
  · rintro ⟨i, j, meets⟩
    obtain ⟨s, member, isStart, isStop⟩ := exists_segment ring i
    obtain ⟨s', member', isStart', isStop'⟩ := exists_segment ring' j
    have differ : s'.1.xy ≠ s'.2.xy := by
      rw [isStart', isStop']
      exact quad'.corner_ne j
    by_cases covered : Covered s.1.xy s.2.xy s'.1.xy s'.2.xy
    · obtain ⟨⟨start, stop⟩, -⟩ := covered
      obtain ⟨s'', member'', isStart'', isStop''⟩ := exists_segment ring' (j + 1)
      rw [isStart'] at start
      rw [isStop', ← isStart''] at stop
      refine ⟨s, member, s'', member'', (msIntersectSegments_crossing ?_).mpr ⟨_, stop, left_mem_segment K _ _⟩⟩
      have next : j + 1 + 1 = j + 2 := add_assoc j 1 1
      rw [isStart''] at stop ⊢
      rw [isStop'', next]
      exact cross_after quad' start stop
    · refine ⟨s, member, s', member', msIntersectSegments_of_meet differ ?_ covered⟩
      rw [isStart, isStop, isStart', isStop']
      exact meets

end Rings

inductive LabelArea (K : Type) [Field K] [LinearOrder K] where
  | rect (bbox : RectObj K) (wide : bbox.minx < bbox.maxx) (high : bbox.miny < bbox.maxy)
  | quad (poly : LineObj K) (bbox : RectObj K) (corners : Quad K) (ring : poly.map PointObj.xy = corners.ring)
      (around : ∀ i, corners.corner i ∈ area bbox)

namespace LabelArea

def poly : LabelArea K → Option (LineObj K)
  | .rect .. => none
  | .quad poly .. => some poly

def bbox : LabelArea K → RectObj K
  | .rect bbox .. => bbox
  | .quad _ bbox .. => bbox

def region : LabelArea K → Set (K × K)
  | .rect bbox .. => area bbox
  | .quad _ _ corners .. => convexHull K (Set.range corners.corner)

end LabelArea

variable [IsStrictOrderedRing K]

theorem rectQuad_convex (bbox : RectObj K) (wide : bbox.minx < bbox.maxx) (high : bbox.miny < bbox.maxy) :
    let corner : Fin 4 → K × K := ![(bbox.minx, bbox.miny), (bbox.minx, bbox.maxy), (bbox.maxx, bbox.maxy), (bbox.maxx, bbox.miny)]
    ∀ i, 0 < turn (corner 0) (corner 1) (corner 2) * turn (corner i) (corner (i + 1)) (corner (i + 2)) := by
  intro corner i
  have extent : 0 < (bbox.maxx - bbox.minx) * (bbox.maxy - bbox.miny) := mul_pos (sub_pos.mpr wide) (sub_pos.mpr high)
  refine lt_of_lt_of_eq (mul_pos extent extent) ?_
  obtain rfl | rfl | rfl | rfl : i = 0 ∨ i = 1 ∨ i = 2 ∨ i = 3 := by omega
  all_goals
    simp only [corner, turn, cross, Fin.reduceAdd, Fin.isValue, Matrix.cons_val, Prod.fst_sub, Prod.snd_sub]
    ring

def rectQuad (bbox : RectObj K) (wide : bbox.minx < bbox.maxx) (high : bbox.miny < bbox.maxy) : Quad K where
  corner := ![(bbox.minx, bbox.miny), (bbox.minx, bbox.maxy), (bbox.maxx, bbox.maxy), (bbox.maxx, bbox.miny)]
  convex := rectQuad_convex bbox wide high

theorem rectPoints_ring (bbox : RectObj K) (wide : bbox.minx < bbox.maxx) (high : bbox.miny < bbox.maxy) :
    (rectPoints bbox).map PointObj.xy = (rectQuad bbox wide high).ring := rfl

theorem area_rectQuad (bbox : RectObj K) (wide : bbox.minx < bbox.maxx) (high : bbox.miny < bbox.maxy) :
    (rectQuad bbox wide high).area = area bbox := by
  have width := sub_pos.mpr wide
  have height := sub_pos.mpr high
  have extent : 0 < (bbox.maxx - bbox.minx) * (bbox.maxy - bbox.miny) := mul_pos width height
  ext q
  obtain ⟨left, top, right, bottom⟩ :
      (rectQuad bbox wide high).side 0 q =
          (bbox.maxx - bbox.minx) * (bbox.maxy - bbox.miny) * ((bbox.maxy - bbox.miny) * (q.1 - bbox.minx)) ∧
        (rectQuad bbox wide high).side 1 q =
          (bbox.maxx - bbox.minx) * (bbox.maxy - bbox.miny) * ((bbox.maxx - bbox.minx) * (bbox.maxy - q.2)) ∧
        (rectQuad bbox wide high).side 2 q =
          (bbox.maxx - bbox.minx) * (bbox.maxy - bbox.miny) * ((bbox.maxy - bbox.miny) * (bbox.maxx - q.1)) ∧
        (rectQuad bbox wide high).side 3 q =
          (bbox.maxx - bbox.minx) * (bbox.maxy - bbox.miny) * ((bbox.maxx - bbox.minx) * (q.2 - bbox.miny)) := by
    refine ⟨?_, ?_, ?_, ?_⟩
    all_goals
      simp only [rectQuad, Quad.side, turn, cross, Fin.reduceAdd, Fin.isValue, Matrix.cons_val, Prod.fst_sub, Prod.snd_sub]
      ring
  have sides : q ∈ (rectQuad bbox wide high).area ↔ 0 ≤ (rectQuad bbox wide high).side 0 q ∧ 0 ≤ (rectQuad bbox wide high).side 1 q ∧
      0 ≤ (rectQuad bbox wide high).side 2 q ∧ 0 ≤ (rectQuad bbox wide high).side 3 q := by
    constructor
    · intro member
      exact ⟨member 0, member 1, member 2, member 3⟩
    · rintro ⟨on0, on1, on2, on3⟩ i
      obtain rfl | rfl | rfl | rfl : i = 0 ∨ i = 1 ∨ i = 2 ∨ i = 3 := by omega
      exacts [on0, on1, on2, on3]
  rw [sides, left, top, right, bottom, mul_nonneg_iff_of_pos_left extent, mul_nonneg_iff_of_pos_left extent,
    mul_nonneg_iff_of_pos_left extent, mul_nonneg_iff_of_pos_left extent, mul_nonneg_iff_of_pos_left width,
    mul_nonneg_iff_of_pos_left width, mul_nonneg_iff_of_pos_left height, mul_nonneg_iff_of_pos_left height,
    sub_nonneg, sub_nonneg, sub_nonneg, sub_nonneg]
  constructor
  · intro on
    exact ⟨⟨on.1, on.2.2.1⟩, on.2.2.2, on.2.1⟩
  · intro inside
    exact ⟨inside.1.1, inside.2.2, inside.1.2, inside.2.1⟩

namespace LabelArea

def corners : LabelArea K → Quad K
  | .rect bbox wide high => rectQuad bbox wide high
  | .quad _ _ corners .. => corners

theorem corners_area (label : LabelArea K) : label.corners.area = label.region := by
  cases label with
  | rect bbox wide high => exact area_rectQuad bbox wide high
  | quad poly bbox corners ring around => exact corners.area_eq_convexHull

theorem points_ring (label : LabelArea K) : (label.poly.getD (rectPoints label.bbox)).map PointObj.xy = label.corners.ring := by
  cases label with
  | rect bbox wide high => exact rectPoints_ring bbox wide high
  | quad poly bbox corners ring around => exact ring

theorem region_subset (label : LabelArea K) : label.region ⊆ area label.bbox := by
  cases label with
  | rect bbox wide high => exact Set.Subset.refl _
  | quad poly bbox corners ring around =>
    refine convexHull_min (Set.range_subset_iff.mpr around) ?_
    exact area_convex bbox

end LabelArea

omit [Field K] [IsStrictOrderedRing K] in
theorem msRectOverlap_of_areas {a b : RectObj K} (meet : (area a ∩ area b).Nonempty) : msRectOverlap a b = true := by
  obtain ⟨p, ⟨acrossA, upA⟩, acrossB, upB⟩ := meet
  rw [msRectOverlap_iff]
  exact ⟨acrossA.1.trans acrossB.2, acrossB.1.trans acrossA.2, upA.1.trans upB.2, upB.1.trans upA.2⟩

omit [Field K] [IsStrictOrderedRing K] in
theorem areas_of_msRectOverlap {a b : RectObj K} (overlap : msRectOverlap a b = true) (wideA : a.minx ≤ a.maxx) (highA : a.miny ≤ a.maxy)
    (wideB : b.minx ≤ b.maxx) (highB : b.miny ≤ b.maxy) : (area a ∩ area b).Nonempty := by
  rw [msRectOverlap_iff] at overlap
  obtain ⟨left, right, low, high⟩ := overlap
  exact ⟨(max a.minx b.minx, max a.miny b.miny),
    ⟨⟨le_max_left _ _, max_le wideA right⟩, le_max_left _ _, max_le highA high⟩,
    ⟨le_max_right _ _, max_le left wideB⟩, le_max_right _ _, max_le low highB⟩

theorem intersectLabelPolygons_meet (first second : LabelArea K) :
    intersectLabelPolygons first.poly first.bbox second.poly second.bbox = true ↔ (first.region ∩ second.region).Nonempty := by
  have inBoxes : (first.region ∩ second.region).Nonempty → msRectOverlap first.bbox second.bbox = true := fun meet =>
    msRectOverlap_of_areas (meet.mono (Set.inter_subset_inter first.region_subset second.region_subset))
  unfold intersectLabelPolygons
  by_cases overlap : msRectOverlap first.bbox second.bbox = true
  · rw [overlap, Bool.not_true, if_neg Bool.false_ne_true]
    split
    · rename_i rects
      apply iff_of_true rfl
      cases first with
      | quad => cases rects
      | rect a wideA highA =>
        cases second with
        | quad => cases rects
        | rect b wideB highB => exact areas_of_msRectOverlap overlap wideA.le highA.le wideB.le highB.le
    · have inFirst := head?_ring second.points_ring (fun point => msPointInPolygon point (first.poly.getD (rectPoints first.bbox)))
        (inside first.corners.ring) fun p => by rw [msPointInPolygon_eq, first.points_ring]
      have inSecond := head?_ring first.points_ring (fun point => msPointInPolygon point (second.poly.getD (rectPoints second.bbox)))
        (inside second.corners.ring) fun p => by rw [msPointInPolygon_eq, second.points_ring]
      have edges := anySegmentsMeet_iff first.points_ring second.points_ring
      rw [← first.corners_area, ← second.corners_area, Quad.areas_meet_iff, ← edges, ← inFirst, ← inSecond]
      dsimp only
      split_ifs with touching holds
      · exact iff_of_true rfl (.inl touching)
      · exact iff_of_true rfl (.inr (.inl holds))
      · simp [touching, holds]
  · rw [Bool.eq_false_of_not_eq_true overlap]
    exact iff_of_false Bool.false_ne_true fun meet => overlap (inBoxes meet)

/-- Two labels are found to overlap if their closed areas have a common point, in either order. -/
theorem intersectLabelPolygons_exact (first second : LabelArea K) :
    (intersectLabelPolygons first.poly first.bbox second.poly second.bbox = true ↔ (first.region ∩ second.region).Nonempty) ∧
      intersectLabelPolygons first.poly first.bbox second.poly second.bbox =
        intersectLabelPolygons second.poly second.bbox first.poly first.bbox := by
  refine ⟨intersectLabelPolygons_meet first second, ?_⟩
  rw [Bool.eq_iff_iff, intersectLabelPolygons_meet, intersectLabelPolygons_meet, Set.inter_comm]

def tippedSquare : LabelArea ℚ :=
  .quad [⟨0, 2, 0, 0⟩, ⟨2, 4, 0, 0⟩, ⟨4, 2, 0, 0⟩, ⟨2, 0, 0, 0⟩, ⟨0, 2, 0, 0⟩] ⟨0, 0, 4, 4⟩
    ⟨![(0, 2), (2, 4), (4, 2), (2, 0)], by decide +kernel⟩ rfl fun i => by
      have within : ∀ i : Fin 4, ((0 : ℚ) ≤ (![(0, 2), (2, 4), (4, 2), (2, 0)] i : ℚ × ℚ).1 ∧
          (![(0, 2), (2, 4), (4, 2), (2, 0)] i : ℚ × ℚ).1 ≤ 4) ∧ (0 : ℚ) ≤ (![(0, 2), (2, 4), (4, 2), (2, 0)] i : ℚ × ℚ).2 ∧
          (![(0, 2), (2, 4), (4, 2), (2, 0)] i : ℚ × ℚ).2 ≤ 4 := by decide +kernel
      exact within i

def smallSquare : LabelArea ℚ := .rect ⟨0, 0, 1, 1⟩ one_pos one_pos

theorem intersectLabelPolygons_exact_squares :
    (intersectLabelPolygons smallSquare.poly smallSquare.bbox tippedSquare.poly tippedSquare.bbox = true ↔
        (smallSquare.region ∩ tippedSquare.region).Nonempty) ∧
      intersectLabelPolygons smallSquare.poly smallSquare.bbox tippedSquare.poly tippedSquare.bbox =
        intersectLabelPolygons tippedSquare.poly tippedSquare.bbox smallSquare.poly smallSquare.bbox :=
  intersectLabelPolygons_exact smallSquare tippedSquare

end MapServer

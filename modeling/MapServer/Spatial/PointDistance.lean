import MapServer.Primitive.Densify
import MapServer.Spatial.Intersections
import Mathlib.Order.Bounds.Basic

namespace MapServer
open Lib.Segments Lib.Distances

section Model
variable {K : Type} [Field K] [LinearOrder K]

def msSquareDistancePointToSegment (p a b : PointObj K) : K :=
  let l_squared := msSquareDistancePointToPoint a b
  if l_squared = 0 then msSquareDistancePointToPoint a p
  else
    let r := ((a.y - p.y) * (a.y - b.y) - (a.x - p.x) * (b.x - a.x)) / l_squared
    if r > 1 then MS_MIN (msSquareDistancePointToPoint p b) (msSquareDistancePointToPoint p a)
    else if r < 0 then MS_MIN (msSquareDistancePointToPoint p b) (msSquareDistancePointToPoint p a)
    else
      let s := ((a.y - p.y) * (b.x - a.x) - (a.x - p.x) * (b.y - a.y)) / l_squared
      |s * s * l_squared|

/-- The loops over the distances, where `minDist` is negative before the first one. -/
def leastDistance (dists : List K) : K :=
  dists.foldl (fun minDist dist => if dist < minDist ∨ minDist < 0 then dist else minDist) (-1)

def pointDistances (point : PointObj K) (shape : ShapeObj K) : List K :=
  shape.line.flatten.map (msSquareDistancePointToPoint point)

def segmentDistances (point : PointObj K) (shape : ShapeObj K) : List K :=
  (shape.line.flatMap segments).map fun segment => msSquareDistancePointToSegment point segment.1 segment.2

def msSquareDistancePointToShape (point : PointObj K) (shape : ShapeObj K) : K :=
  match shape.type with
  | .MS_SHAPE_POINT => leastDistance (pointDistances point shape)
  | .MS_SHAPE_LINE => leastDistance (segmentDistances point shape)
  | .MS_SHAPE_POLYGON =>
    if msIntersectPointPolygon point shape.line then 0 else leastDistance (segmentDistances point shape)
  | .MS_SHAPE_NULL => -1

end Model

variable {K : Type} [Field K]

/-- The distance of a point at `t` on the line through `a` and `b` is that of the foot of `p` on the line, and what `t` is
away from the foot. -/
theorem squareDistance_foot {p a b : K × K} (differ : squareDistance a b ≠ 0) {r s : K} (t : K)
    (foot : r = ((a.2 - p.2) * (a.2 - b.2) - (a.1 - p.1) * (b.1 - a.1)) / squareDistance a b)
    (side : s = ((a.2 - p.2) * (b.1 - a.1) - (a.1 - p.1) * (b.2 - a.2)) / squareDistance a b) :
    squareDistance p (along a b t) = s * s * squareDistance a b + (t - r) * (t - r) * squareDistance a b := by
  have footTimes : r * squareDistance a b = (a.2 - p.2) * (a.2 - b.2) - (a.1 - p.1) * (b.1 - a.1) := by rw [foot, div_mul_cancel₀ _ differ]
  have sideTimes : s * squareDistance a b = (a.2 - p.2) * (b.1 - a.1) - (a.1 - p.1) * (b.2 - a.2) := by rw [side, div_mul_cancel₀ _ differ]
  apply mul_right_cancel₀ differ
  have expand : (s * s * squareDistance a b + (t - r) * (t - r) * squareDistance a b) * squareDistance a b =
      (s * squareDistance a b) * (s * squareDistance a b) + (t * squareDistance a b - r * squareDistance a b) * (t * squareDistance a b - r * squareDistance a b) := by ring
  rw [expand, footTimes, sideTimes]
  simp only [squareDistance, along]
  ring

variable [LinearOrder K] [IsStrictOrderedRing K]

theorem squareDistance_eq_zero {p q : K × K} : squareDistance p q = 0 ↔ p = q := by
  rw [squareDistance, mul_self_add_mul_self_eq_zero, sub_eq_zero, sub_eq_zero, Prod.ext_iff]

theorem squareDistance_least (p a b : PointObj K) :
    IsLeast (squareDistance p.xy '' segment K a.xy b.xy) (msSquareDistancePointToSegment p a b) := by
  have toPoint (q q' : PointObj K) : msSquareDistancePointToPoint q q' = squareDistance q.xy q'.xy := rfl
  unfold msSquareDistancePointToSegment
  dsimp only
  split
  · rename_i same
    have here : a.xy = b.xy := squareDistance_eq_zero.mp same
    have symmetric : msSquareDistancePointToPoint a p = squareDistance p.xy a.xy := by simp only [toPoint, squareDistance]; ring
    rw [← here, segment_same, Set.image_singleton, symmetric]
    exact isLeast_singleton
  · rename_i differ
    have differ : squareDistance a.xy b.xy ≠ 0 := differ
    have length : 0 < squareDistance a.xy b.xy := lt_of_le_of_ne (squareDistance_nonneg _ _) differ.symm
    generalize isR : ((a.y - p.y) * (a.y - b.y) - (a.x - p.x) * (b.x - a.x)) / msSquareDistancePointToPoint a b = r
    generalize isS : ((a.y - p.y) * (b.x - a.x) - (a.x - p.x) * (b.y - a.y)) / msSquareDistancePointToPoint a b = s
    have at_ (t : K) : squareDistance p.xy (along a.xy b.xy t) = s * s * squareDistance a.xy b.xy + (t - r) * (t - r) * squareDistance a.xy b.xy :=
      squareDistance_foot differ t isR.symm isS.symm
    have start : squareDistance p.xy a.xy = s * s * squareDistance a.xy b.xy + r * r * squareDistance a.xy b.xy := by
      have first := at_ 0
      rwa [along_zero, zero_sub, neg_mul_neg] at first
    have stop : squareDistance p.xy b.xy = s * s * squareDistance a.xy b.xy + (1 - r) * (1 - r) * squareDistance a.xy b.xy := by
      have last := at_ 1
      rwa [along_one] at last
    have below {t u : K} (nearer : (t - r) * (t - r) ≤ (u - r) * (u - r)) :
        squareDistance p.xy (along a.xy b.xy t) ≤ squareDistance p.xy (along a.xy b.xy u) := by
      rw [at_, at_]
      exact add_le_add_right (mul_le_mul_of_nonneg_right nearer length.le) _
    have least (t : K) (low : 0 ≤ t) (high : t ≤ 1) (all : ∀ u, 0 ≤ u → u ≤ 1 → (t - r) * (t - r) ≤ (u - r) * (u - r)) :
        IsLeast (squareDistance p.xy '' segment K a.xy b.xy) (squareDistance p.xy (along a.xy b.xy t)) := by
      refine ⟨Set.mem_image_of_mem _ (along_mem low high), ?_⟩
      rintro _ ⟨q, inside, rfl⟩
      obtain ⟨u, lowU, highU, rfl⟩ := mem_segment_iff.mp inside
      exact below (all u lowU highU)
    split
    · rename_i past
      have order : squareDistance p.xy b.xy < squareDistance p.xy a.xy := by
        rw [start, stop]
        nlinarith only [past, length]
      rw [toPoint, toPoint, MS_MIN, if_pos order]
      have last := least 1 zero_le_one le_rfl fun u _ high => by nlinarith only [past, high]
      rwa [along_one] at last
    · rename_i notPast
      split
      · rename_i before
        have order : ¬ squareDistance p.xy b.xy < squareDistance p.xy a.xy := by
          rw [start, stop]
          nlinarith only [before, length]
        rw [toPoint, toPoint, MS_MIN, if_neg order]
        have first := least 0 le_rfl zero_le_one fun u low _ => by nlinarith only [before, low]
        rwa [along_zero] at first
      · rename_i notBefore
        have foot := least r (not_lt.mp notBefore) (not_lt.mp notPast) fun u _ _ => by
          rw [sub_self, mul_zero]
          exact mul_self_nonneg _
        rw [at_, sub_self, mul_zero, zero_mul, add_zero] at foot
        rw [toPoint, abs_of_nonneg (mul_nonneg (mul_self_nonneg s) length.le)]
        exact foot

theorem leastDistance_least {dists : List K} (nonneg : ∀ dist ∈ dists, 0 ≤ dist) :
    dists = [] ∧ leastDistance dists = -1 ∨ IsLeast {dist | dist ∈ dists} (leastDistance dists) := by
  induction dists using List.reverseRecOn with
  | nil => exact .inl ⟨rfl, rfl⟩
  | append_singleton dists dist ih =>
    right
    have further : leastDistance (dists ++ [dist]) =
        if dist < leastDistance dists ∨ leastDistance dists < 0 then dist else leastDistance dists := List.foldl_concat ..
    rcases ih fun other member => nonneg other (List.mem_append_left _ member) with ⟨rfl, first⟩ | least
    · rw [further, first, if_pos (.inr neg_one_lt_zero), List.nil_append]
      simp [IsLeast, lowerBounds]
    · have positive := nonneg _ (List.mem_append_left _ least.1)
      rw [further]
      split
      · rename_i nearer
        have nearer := nearer.resolve_right (not_lt.mpr positive)
        refine ⟨List.mem_append_right _ (List.mem_singleton_self _), fun other member => ?_⟩
        rcases List.mem_append.mp member with old | new
        · exact nearer.le.trans (least.2 old)
        · exact (List.mem_singleton.mp new).ge
      · rename_i farther
        refine ⟨List.mem_append_left _ least.1, fun other member => ?_⟩
        rcases List.mem_append.mp member with old | new
        · exact least.2 old
        · exact (List.mem_singleton.mp new).ge.trans' (not_lt.mp fun nearer => farther (.inl nearer))

/-- The points of a point shape, and the segments of a line or of the rings of a polygon. -/
def outline (shape : ShapeObj K) : Set (K × K) :=
  match shape.type with
  | .MS_SHAPE_POINT => {q | ∃ point ∈ shape.line.flatten, q ∈ ({point.xy} : Set (K × K))}
  | .MS_SHAPE_LINE | .MS_SHAPE_POLYGON => {q | ∃ ends ∈ shape.line.flatMap segments, q ∈ segment K ends.1.xy ends.2.xy}
  | .MS_SHAPE_NULL => ∅

/-- No point of the outline is nearer than the distance, which one of them has; a shape without an outline has none. -/
def IsDistance (p : K × K) (points : Set (K × K)) (d : K) : Prop := points = ∅ ∧ d = -1 ∨ IsLeast (squareDistance p '' points) d

theorem leastDistance_map {β : Type} {p : K × K} {items : List β} {dist : β → K} {points : β → Set (K × K)}
    (each : ∀ item, IsLeast (squareDistance p '' points item) (dist item)) :
    IsDistance p {q | ∃ item ∈ items, q ∈ points item} (leastDistance (items.map dist)) := by
  have nonneg : ∀ d ∈ items.map dist, 0 ≤ d := by
    intro d member
    obtain ⟨item, -, rfl⟩ := List.mem_map.mp member
    obtain ⟨q, -, same⟩ := (each item).1
    exact same ▸ squareDistance_nonneg p q
  rcases leastDistance_least nonneg with ⟨none, least⟩ | least
  · refine .inl ⟨?_, least⟩
    rw [List.map_eq_nil_iff.mp none]
    simp
  · right
    constructor
    · obtain ⟨item, member, same⟩ := List.mem_map.mp least.1
      obtain ⟨q, inside, distance⟩ := (each item).1
      exact ⟨q, ⟨item, member, inside⟩, distance.trans same⟩
    · rintro _ ⟨q, ⟨item, member, inside⟩, rfl⟩
      have bound : leastDistance (items.map dist) ≤ dist item := least.2 (List.mem_map.mpr ⟨item, member, rfl⟩)
      exact bound.trans ((each item).2 ⟨q, inside, rfl⟩)

theorem pointDistances_least (point : PointObj K) (shape : ShapeObj K) :
    IsDistance point.xy {q | ∃ other ∈ shape.line.flatten, q ∈ ({other.xy} : Set (K × K))}
      (leastDistance (pointDistances point shape)) := by
  apply leastDistance_map
  intro other
  rw [Set.image_singleton]
  exact isLeast_singleton

theorem segmentDistances_least (point : PointObj K) (shape : ShapeObj K) :
    IsDistance point.xy {q | ∃ ends ∈ shape.line.flatMap segments, q ∈ segment K ends.1.xy ends.2.xy}
      (leastDistance (segmentDistances point shape)) :=
  leastDistance_map fun ends => squareDistance_least point ends.1 ends.2

/-- Exactly computed, the distance of a point from a shape is nothing inside a polygon, and elsewhere the least one from the
outline. -/
theorem msSquareDistancePointToShape_exact (point : PointObj K) (shape : ShapeObj K) :
    if shape.type = .MS_SHAPE_POLYGON ∧ msIntersectPointPolygon point shape.line = true then
      msSquareDistancePointToShape point shape = 0
    else IsDistance point.xy (outline shape) (msSquareDistancePointToShape point shape) := by
  unfold msSquareDistancePointToShape outline
  cases shape.type with
  | MS_SHAPE_POINT => simpa using pointDistances_least point shape
  | MS_SHAPE_LINE => simpa using segmentDistances_least point shape
  | MS_SHAPE_POLYGON =>
    by_cases inside : msIntersectPointPolygon point shape.line = true
    · rw [if_pos ⟨rfl, inside⟩]
      exact if_pos inside
    · rw [if_neg fun both => inside both.2]
      dsimp only
      rw [if_neg inside]
      exact segmentDistances_least point shape
  | MS_SHAPE_NULL =>
    rw [if_neg (by simp)]
    exact .inl ⟨rfl, rfl⟩

def uprightLine : ShapeObj ℚ := ⟨[[⟨3, -1, 0, 0⟩, ⟨3, 5, 0, 0⟩]], ⟨3, -1, 3, 5⟩, .MS_SHAPE_LINE, 0⟩

theorem msSquareDistancePointToShape_exact_upright : IsDistance (0, 0) (outline uprightLine) 9 := by
  have exact := msSquareDistancePointToShape_exact ⟨0, 0, 0, 0⟩ uprightLine
  rw [if_neg (by decide)] at exact
  have nine : msSquareDistancePointToShape ⟨0, 0, 0, 0⟩ uprightLine = 9 := by decide +kernel
  rwa [nine] at exact

end MapServer

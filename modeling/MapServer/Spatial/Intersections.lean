import MapServer.Lib.Loop
import MapServer.Shape.Record
import Mathlib.Algebra.Field.Defs

/-! Coordinates are exact numbers. `none` stands for a read past the points of a ring. -/

namespace MapServer
open Lib.Loop

section RingLists
variable {K : Type} [Field K] [LinearOrder K]

/-- The loop of `msPointInPolygon` from a point on, with the point before it. -/
def passEdges (p : PointObj K) : PointObj K → LineObj K → Bool → Bool
  | _, [], status => status
  | before, point :: rest, status =>
    passEdges p point rest
      (if ((point.y ≤ p.y ∧ p.y < before.y) ∨ (before.y ≤ p.y ∧ p.y < point.y)) ∧
          p.x < (before.x - point.x) * (p.y - point.y) / (before.y - point.y) + point.x
        then !status else status)

def msPointInPolygon (p : PointObj K) (c : LineObj K) : Bool :=
  match c.getLast? with
  | none => false
  | some last => passEdges p last c false

def outerRingStep (shape : ShapeObj K) (r i : Nat) (status : Bool) : Option Bool :=
  if i = r then some status
  else do
    let ring ← shape.line[r]?
    let other ← shape.line[i]?
    let result1 := msPointInPolygon (← ring[0]?) other
    let result2 := msPointInPolygon (← ring[1]?) other
    if result1 = result2 then some (if result1 then !status else status)
    else some (if msPointInPolygon (← ring[2]?) other then !status else status)

def msIsOuterRing (shape : ShapeObj K) (r : Int) : Option Bool :=
  if shape.line.length = 1 then some true
  else if r < 0 ∨ r ≥ shape.line.length then some false
  else forUp (outerRingStep shape r.toNat) 0 shape.line.length true

def msGetOuterList (shape : ShapeObj K) : Option (List Bool) :=
  (List.range shape.line.length).mapM fun (i : Nat) => msIsOuterRing shape i

/-- One entry of the list that `msGetInnerList` returns. -/
def innerRingEntry (shape : ShapeObj K) (r : Nat) (outerlist : List Bool) (i : Nat) : Option Bool := do
  if ← outerlist[i]? then some false
  else
    let ring ← shape.line[i]?
    let outer ← shape.line[r]?
    if msPointInPolygon (← ring[0]?) outer then some true
    else some (msPointInPolygon (← ring[1]?) outer)

/-- The inner `none` is the `NULL` of a bad ring index. -/
def msGetInnerList (shape : ShapeObj K) (r : Int) (outerlist : List Bool) : Option (Option (List Bool)) :=
  if r < 0 ∨ r ≥ shape.line.length then some none
  else ((List.range shape.line.length).mapM (innerRingEntry shape r.toNat outerlist)).map some

/-- Every vertex of ring `i` is inside ring `j`. -/
def ringEncloses (shape : ShapeObj K) (j i : Fin shape.line.length) : Prop :=
  j ≠ i ∧ ∀ point ∈ shape.line[i], msPointInPolygon point shape.line[j] = true

instance (shape : ShapeObj K) : DecidableRel (ringEncloses shape) :=
  fun j i => inferInstanceAs (Decidable (j ≠ i ∧ ∀ point ∈ shape.line[i], msPointInPolygon point shape.line[j] = true))

end RingLists

end MapServer

/-! The tests of `mapsearch.c` between shapes and a polygon, on exact coordinates. Every part of a shape has a point. -/

namespace MapServer
variable {K : Type} [Field K] [LinearOrder K]

def msIntersectSegments (a b c d : PointObj K) : Bool :=
  let numerator := (a.y - c.y) * (d.x - c.x) - (a.x - c.x) * (d.y - c.y)
  let denominator := (b.x - a.x) * (d.y - c.y) - (b.y - a.y) * (d.x - c.x)
  if denominator = 0 ∧ numerator = 0 then
    if a.y = c.y then
      decide ((a.x ≥ MS_MIN c.x d.x ∧ a.x ≤ MS_MAX c.x d.x) ∨ (b.x ≥ MS_MIN c.x d.x ∧ b.x ≤ MS_MAX c.x d.x))
    else decide ((a.y ≥ MS_MIN c.y d.y ∧ a.y ≤ MS_MAX c.y d.y) ∨ (b.y ≥ MS_MIN c.y d.y ∧ b.y ≤ MS_MAX c.y d.y))
  else if denominator = 0 then false
  else
    let r := numerator / denominator
    if r < 0 ∨ r > 1 then false
    else
      let numerator := (a.y - c.y) * (b.x - a.x) - (a.x - c.x) * (b.y - a.y)
      let s := numerator / denominator
      !decide (s < 0 ∨ s > 1)

def msIntersectPointPolygon (point : PointObj K) (poly : List (LineObj K)) : Bool :=
  poly.foldl (fun status part => if msPointInPolygon point part then !status else status) false

def msIntersectMultipointPolygon (multipoint poly : List (LineObj K)) : Bool :=
  multipoint.any fun points => points.any fun point => msIntersectPointPolygon point poly

def segments (part : LineObj K) : List (PointObj K × PointObj K) := part.zip part.tail

def msIntersectPolylines (line1 line2 : List (LineObj K)) : Bool :=
  line1.any fun part1 => (segments part1).any fun first => line2.any fun part2 => (segments part2).any fun second =>
    msIntersectSegments first.1 first.2 second.1 second.2

def firstPointInside (line poly : List (LineObj K)) : Bool :=
  (line.filterMap List.head?).any fun point => msIntersectPointPolygon point poly

def msIntersectPolylinePolygon (line poly : List (LineObj K)) : Bool :=
  firstPointInside line poly || msIntersectPolylines line poly

def msIntersectPolygons (p1 p2 : List (LineObj K)) : Bool :=
  firstPointInside p2 p1 || firstPointInside p1 p2 || msIntersectPolylines p1 p2

def msRectToPolygon (rect : RectObj K) (poly : List (LineObj K)) : List (LineObj K) :=
  poly ++ [[⟨rect.minx, rect.miny, 0, 0⟩, ⟨rect.minx, rect.maxy, 0, 0⟩, ⟨rect.maxx, rect.maxy, 0, 0⟩,
    ⟨rect.maxx, rect.miny, 0, 0⟩, ⟨rect.minx, rect.miny, 0, 0⟩]]

end MapServer

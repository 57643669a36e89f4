import MapServer.Lib.SignedArea
import MapServer.Mvt.WriteShape
import MapServer.Primitive.ClipLine
import MapServer.Primitive.TransformedParts
import MapServer.Spatial.Intersections
import Mathlib.Data.List.Infix
import Mathlib.Data.Rat.Floor

/-!
Coordinates are exact numbers. `none` stands for a number that does not fit in an `int`, or a read past the points of a ring.
-/

namespace MapServer
open Lib.Loop Lib.SignedArea

inductive MS_RING_DIRECTION where
  | MS_DIRECTION_INVALID_RING
  | MS_DIRECTION_CLOCKWISE
  | MS_DIRECTION_COUNTERCLOCKWISE
  deriving DecidableEq

section Rings
variable {K : Type} [Field K] [LinearOrder K] [FloorRing K]

def truncated (x : K) : Int := if 0 ≤ x then ⌊x⌋ else ⌈x⌉

def intOf (x : K) : Option Int := checkedInt (truncated x)

def edgeLength2 (a b : K × K) : K := (a.1 - b.1) ^ 2 + (a.2 - b.2) ^ 2

def longestEdge2 : List (K × K) → K
  | a :: b :: rest => MS_MAX (edgeLength2 a b) (longestEdge2 (b :: rest))
  | _ => 0

/-- `getTriangleHeight(ring) < 1` for a ring of four points: the height is the area by the longest edge. -/
def flatTriangle (ring : LineObj K) : Bool :=
  crossSum (ring.map PointObj.xy) ^ 2 < longestEdge2 (ring.map PointObj.xy)

def sumEdges (sum : Int) : List (K × K) → Option Int
  | a :: b :: rest => do sumEdges (← intOf (sum + cross a b)) (b :: rest)
  | _ => some sum

def mvtGetRingDirection (ring : LineObj K) : Option MS_RING_DIRECTION :=
  if ring.length < 4 then some .MS_DIRECTION_INVALID_RING
  else do
    let sum ← sumEdges 0 (ring.map PointObj.xy)
    some (if sum > 0 then .MS_DIRECTION_CLOCKWISE
      else if sum < 0 then .MS_DIRECTION_COUNTERCLOCKWISE
      else .MS_DIRECTION_INVALID_RING)

def reverseFrom (start finish : Nat) (ring : LineObj K) : Option (LineObj K) :=
  if start < finish then do
    let temp ← ring[start]?
    let other ← ring[finish]?
    let ring ← storeXY ring start other.xy
    let ring ← storeXY ring finish temp.xy
    reverseFrom (start + 1) (finish - 1) ring
  else some ring
termination_by finish - start

def mvtReverseRingDirection (ring : LineObj K) : Option (LineObj K) := reverseFrom 1 (ring.length - 2) ring

/-- The inner loop of `mvtReorderRings` with the number of its steps, on the rings and their entries in the list of outer rings. -/
def bubblePass : Nat → List (Bool × LineObj K) → List (Bool × LineObj K)
  | steps + 1, a :: b :: rest =>
    if a.1 < b.1 then b :: bubblePass steps (a :: rest) else a :: bubblePass steps (b :: rest)
  | _, rings => rings

def mvtReorderRings (rings : List (Bool × LineObj K)) : List (Bool × LineObj K) :=
  (List.range (rings.length - 1)).foldl (fun rings i => bubblePass (rings.length - i - 1) rings) rings

variable (extent : RectObj K) (mvt_layer_extent : Int)

def tileX (p : K × K) : Int := truncated ((p.1 - extent.minx) * ((mvt_layer_extent : K) / (extent.maxx - extent.minx)))

def tileHeight (p : K × K) : Int := truncated ((p.2 - extent.miny) * ((mvt_layer_extent : K) / (extent.maxy - extent.miny)))

def tileY (p : K × K) : Int := mvt_layer_extent - tileHeight extent mvt_layer_extent p

def tileImage (p : K × K) : K × K := (tileX extent mvt_layer_extent p, tileY extent mvt_layer_extent p)

def tileFits (p : K × K) : Bool :=
  decide (extent.minx ≠ extent.maxx) && decide (extent.miny ≠ extent.maxy) &&
    (checkedInt (tileX extent mvt_layer_extent p)).isSome && (checkedInt (tileHeight extent mvt_layer_extent p)).isSome &&
    (checkedInt (tileY extent mvt_layer_extent p)).isSome

def mvtTransformLine (line : LineObj K) : Option (LineObj K) :=
  if line = [] then some []
  else if line.all fun p => tileFits extent mvt_layer_extent p.xy then removeDuplicates (tileImage extent mvt_layer_extent) line
  else none

def mvtWindRing (outer : Bool) (ring : LineObj K) : Option (LineObj K) :=
  if ring.length = 4 ∧ flatTriangle ring then some []
  else do
    let ring_direction ← mvtGetRingDirection ring
    if ring_direction = .MS_DIRECTION_INVALID_RING then some []
    else if (outer ∧ ring_direction ≠ .MS_DIRECTION_CLOCKWISE) ∨ (¬outer ∧ ring_direction ≠ .MS_DIRECTION_COUNTERCLOCKWISE) then
      mvtReverseRingDirection ring
    else some ring

def mvtTransformShape (shape : ShapeObj K) (layerType : MvtLayerType) : Option (ShapeObj K × Bool) := do
  let line ←
    if layerType = .MS_LAYER_POLYGON then do
      let outers ← msGetOuterList shape
      let rings := outers.zip shape.line
      -- the first ring must be an outer
      let rings := if outers.head? = some false then mvtReorderRings rings else rings
      rings.mapM fun ring => do mvtWindRing ring.1 (← mvtTransformLine extent mvt_layer_extent ring.2)
    else shape.line.mapM (mvtTransformLine extent mvt_layer_extent)
  some (msComputeBounds { shape with line }, line ≠ [])

end Rings

end MapServer

namespace MapServer
open Lib.Loop Lib.SignedArea Lib.Thinning

variable {K : Type}

def Closed (path : List (K × K)) : Prop := path.head? = path.getLast?

variable [Field K]

variable [LinearOrder K] [FloorRing K]

section Tiles
variable (extent : RectObj K) (mvt_layer_extent : Int)

end Tiles

variable [IsStrictOrderedRing K]

section Shapes
variable (extent : RectObj K) (mvt_layer_extent : Int)

variable {extent mvt_layer_extent}

end Shapes

end MapServer

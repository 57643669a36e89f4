import Mathlib.Algebra.Order.Floor.Ring
import MapServer.Lib.Loop
import MapServer.Shape.Record

/-! Coordinates are exact numbers. `none` stands for a read or a store past the points of a part. -/

namespace MapServer
open Lib.Loop

attribute [local instance] two_atLeastTwo

section Macros
variable {K : Type} [Field K] [LinearOrder K] [FloorRing K]

def MS_NINT (x : K) : Int :=
  if Int.fract x < 1 / 2 then ⌊x⌋ else if Int.fract x > 1 / 2 then ⌊x⌋ + 1 else if ⌊x⌋ % 2 = 0 then ⌊x⌋ else ⌊x⌋ + 1

def MS_MAP2IMAGE_X_IC (x minx icx : K) : K := MS_NINT ((x - minx) * icx)

def MS_MAP2IMAGE_Y_IC (y maxy icy : K) : K := MS_NINT ((maxy - y) * icy)

def MS_MAP2IMAGE_X_IC_DBL (x minx icx : K) : K := (x - minx) * icx

def MS_MAP2IMAGE_Y_IC_DBL (y maxy icy : K) : K := (maxy - y) * icy

def MS_MAP2IMAGE_X_IC_SNAP (x minx icx res : K) : K := MS_NINT ((x - minx) * icx * res) / res

def MS_MAP2IMAGE_Y_IC_SNAP (y maxy icy res : K) : K := MS_NINT ((maxy - y) * icy * res) / res

variable (extent : RectObj K) (inv_cs : K)

def imageRound (p : K × K) : K × K :=
  (MS_MAP2IMAGE_X_IC p.1 extent.minx inv_cs, MS_MAP2IMAGE_Y_IC p.2 extent.maxy inv_cs)

def imageDbl (p : K × K) : K × K :=
  (MS_MAP2IMAGE_X_IC_DBL p.1 extent.minx inv_cs, MS_MAP2IMAGE_Y_IC_DBL p.2 extent.maxy inv_cs)

def imageSnap (grid_resolution : K) (p : K × K) : K × K :=
  (MS_MAP2IMAGE_X_IC_SNAP p.1 extent.minx inv_cs grid_resolution,
    MS_MAP2IMAGE_Y_IC_SNAP p.2 extent.maxy inv_cs grid_resolution)

end Macros

section Loops
variable {K : Type}

def PointObj.xy (p : PointObj K) : K × K := (p.x, p.y)

/-- The stores into `point[k].x` and `point[k].y`. -/
def storeXY (point : LineObj K) (k : Nat) (xy : K × K) : Option (LineObj K) :=
  point[k]?.map fun p => point.set k { p with x := xy.1, y := xy.2 }

variable (image : K × K → K × K)

/-- The body of a loop that keeps a point when it is far enough from `point[k - 1]`. -/
def compactStep (keeps : K × K → K × K → Bool) (j : Nat) : LineObj K × Nat → Option (LineObj K × Nat)
  | (point, k) => do
    let p ← point[j]?
    let point ← storeXY point k (image p.xy)
    let last ← point[k - 1]?
    some (point, if keeps last.xy (image p.xy) then k + 1 else k)

def transformFrom (start : Nat) (part : LineObj K) : Option (LineObj K) :=
  forUp (fun j point => do storeXY point j (image (← point[j]?).xy)) start (part.length - start) part

variable [DecidableEq K]

def differ (a b : K × K) : Bool := b.1 ≠ a.1 || b.2 ≠ a.2

def removeDuplicates (part : LineObj K) : Option (LineObj K) := do
  let first ← part[0]?
  let point ← storeXY part 0 (image first.xy)
  let (point, k) ← forUp (compactStep image differ) 1 (part.length - 1) (point, 1)
  some (point.take k)

end Loops

section Modes
variable {K : Type} [Field K] [LinearOrder K] [FloorRing K] (shape : ShapeObj K) (extent : RectObj K) (cellsize : K)

def farther (a b : K × K) : Bool :=
  let dx := b.1 - a.1
  let dy := b.2 - a.2
  dx * dx + dy * dy > 1

def msTransformShapeToPixelDoublePrecision : Option (ShapeObj K) := do
  let line ← shape.line.mapM (transformFrom (imageDbl extent (1 / cellsize)) 0)
  some { shape with line }

inductive TransformMode (K : Type) where
  | MS_TRANSFORM_SNAPTOGRID (approximation_scale : K)
  | MS_TRANSFORM_SIMPLIFY
  | MS_TRANSFORM_ROUND
  | MS_TRANSFORM_FULLRESOLUTION

def TransformMode.halfStep : TransformMode K → K
  | .MS_TRANSFORM_SNAPTOGRID approximation_scale => 1 / approximation_scale / 2
  | .MS_TRANSFORM_ROUND => 1 / 2
  | _ => 0

end Modes

end MapServer

import MapServer.Lib.ByteFile
import MapServer.Runtime

namespace MapServer
open Lib.ByteFile

def SHP_POINT : Int := 1
def SHP_ARC : Int := 3
def SHP_POLYGON : Int := 5
def SHP_MULTIPOINT : Int := 8
def SHP_POINTZ : Int := 11
def SHP_ARCZ : Int := 13
def SHP_POLYGONZ : Int := 15
def SHP_MULTIPOINTZ : Int := 18
def SHP_POINTM : Int := 21
def SHP_ARCM : Int := 23
def SHP_POLYGONM : Int := 25
def SHP_MULTIPOINTM : Int := 28

def polyTypes : List Int := [SHP_POLYGON, SHP_ARC, SHP_POLYGONM, SHP_ARCM, SHP_ARCZ, SHP_POLYGONZ]

def measuredPolyTypes : List Int := [SHP_POLYGONZ, SHP_ARCZ, SHP_POLYGONM, SHP_ARCM]

def multiPointTypes : List Int := [SHP_MULTIPOINT, SHP_MULTIPOINTM, SHP_MULTIPOINTZ]

def pointTypes : List Int := [SHP_POINT, SHP_POINTM, SHP_POINTZ]

structure PointObj (α : Type) where
  x : α
  y : α
  z : α
  m : α
  deriving DecidableEq

abbrev LineObj (α : Type) := List (PointObj α)

inductive MS_SHAPE_TYPE where
  | MS_SHAPE_POINT
  | MS_SHAPE_LINE
  | MS_SHAPE_POLYGON
  | MS_SHAPE_NULL
  deriving DecidableEq

/-- The parts of a `shapeObj` that the shapefile code reads and sets. -/
structure ShapeObj (α : Type) where
  line : List (LineObj α)
  bounds : RectObj α
  type : MS_SHAPE_TYPE
  index : Int
  deriving DecidableEq

section Bounds
variable {α : Type} [LT α] [DecidableLT α]

def MS_MIN (a b : α) : α := if a < b then a else b

def MS_MAX (a b : α) : α := if a > b then a else b

/-- The double loop of `writeBounds` visits the points of `line.flatten`. -/
def growBounds (bounds : RectObj α) (point : PointObj α) : RectObj α where
  minx := MS_MIN bounds.minx point.x
  miny := MS_MIN bounds.miny point.y
  maxx := MS_MAX bounds.maxx point.x
  maxy := MS_MAX bounds.maxy point.y

end Bounds

section Bounds
variable {α : Type} [LinearOrder α]

theorem MS_MIN_eq (a b : α) : MS_MIN a b = min a b := by
  unfold MS_MIN
  split
  · rename_i less
    exact (min_eq_left less.le).symm
  · rename_i notLess
    exact (min_eq_right (not_lt.mp notLess)).symm

theorem MS_MAX_eq (a b : α) : MS_MAX a b = max a b := by
  unfold MS_MAX
  split
  · rename_i greater
    exact (max_eq_left greater.le).symm
  · rename_i notGreater
    exact (max_eq_right (not_lt.mp notGreater)).symm

end Bounds

section Stores
variable {α : Type} (rep : DoubleRep α) (bBigEndian : Bool)

def firstPoint (line : List (LineObj α)) : Option (PointObj α) := line.head?.bind List.head?

def lastPoint (line : List (LineObj α)) : Option (PointObj α) := line.getLast?.bind List.getLast?

def countPoints (line : List (LineObj α)) : Nat := (line.map List.length).sum

def storePartStarts (pabyRec : List UInt8) (pos : Nat) (partSize : Int) : List (LineObj α) → Option (List UInt8)
  | [] => some pabyRec
  | line :: rest => do
    let partSize := partSize + line.length
    let pabyRec ← storeAt pabyRec pos (putWord bBigEndian bBigEndian partSize)
    storePartStarts pabyRec (pos + 4) partSize rest

def storeCoordinates (pabyRec : List UInt8) (pos : Nat) : LineObj α → Option (List UInt8)
  | [] => some pabyRec
  | point :: rest => do
    let pabyRec ← storeAt pabyRec pos (putDouble rep bBigEndian bBigEndian point.x)
    let pabyRec ← storeAt pabyRec (pos + 8) (putDouble rep bBigEndian bBigEndian point.y)
    storeCoordinates pabyRec (pos + 16) rest

/-- Coordinates stored at `nRecordSize`, which each of them moves on. -/
def appendDoubles (pabyRec : List UInt8) (nRecordSize : Nat) : List α → Option (List UInt8 × Nat)
  | [] => some (pabyRec, nRecordSize)
  | value :: rest => do
    let pabyRec ← storeAt pabyRec nRecordSize (putDouble rep bBigEndian bBigEndian value)
    appendDoubles pabyRec (nRecordSize + 8) rest

def appendMeasures (value : PointObj α → α) (line : List (LineObj α)) (pabyRec : List UInt8) (nRecordSize : Nat) :
    Option (List UInt8 × Nat) := do
  let first ← firstPoint line
  let last ← lastPoint line
  appendDoubles rep bBigEndian pabyRec nRecordSize (value first :: value last :: line.flatten.map value)

end Stores

section Write
variable {α : Type} [LT α] [DecidableLT α] (rep : DoubleRep α) (bBigEndian : Bool)

def shapeBounds (line : List (LineObj α)) (nVCount : Nat) : Option (RectObj α) :=
  if nVCount = 0 then
    let zero := rep.ofBits 0
    some { minx := zero, miny := zero, maxx := zero, maxy := zero }
  else
    (firstPoint line).map fun first =>
      line.flatten.foldl growBounds { minx := first.x, miny := first.y, maxx := first.x, maxy := first.y }

def writeBounds (pabyRec : List UInt8) (pos : Nat) (line : List (LineObj α)) (nVCount : Nat) :
    Option (List UInt8) := do
  let bounds ← shapeBounds rep line nVCount
  storeAt pabyRec pos (putRect rep bBigEndian bBigEndian bounds)

def storePolyPoints (line : List (LineObj α)) (pabyRec : List UInt8) : Option (List UInt8) := do
  let nPoints := countPoints line
  let nParts := line.length
  let pabyRec ← writeBounds rep bBigEndian pabyRec 12 line nPoints
  let pabyRec ← storeAt pabyRec (40 + 8) (putWord bBigEndian bBigEndian nPoints)
  let pabyRec ← storeAt pabyRec (36 + 8) (putWord bBigEndian bBigEndian nParts)
  let pabyRec ← storeAt pabyRec (44 + 8) (putWord bBigEndian bBigEndian 0)
  let pabyRec ← storePartStarts bBigEndian pabyRec (44 + 8 + 4) 0 line.dropLast
  storeCoordinates rep bBigEndian pabyRec (44 + 4 * nParts + 8) line.flatten

def storePoly (nShapeType : Int) (line : List (LineObj α)) (pabyRec : List UInt8) : Option (List UInt8 × Nat) := do
  let nPoints := countPoints line
  let nParts := line.length
  let pabyRec ← storePolyPoints rep bBigEndian line pabyRec
  let nRecordSize := 44 + 4 * nParts + 16 * nPoints
  let (pabyRec, nRecordSize) ←
    if nShapeType ∈ [SHP_POLYGONM, SHP_ARCM] then
      appendMeasures rep bBigEndian PointObj.m line pabyRec (44 + 4 * nParts + 8 + nPoints * 16)
    else some (pabyRec, nRecordSize)
  if nShapeType ∈ measuredPolyTypes then
    appendMeasures rep bBigEndian PointObj.z line pabyRec (44 + 4 * nParts + 8 + nPoints * 16)
  else some (pabyRec, nRecordSize)

def storeMultiPointPoints (line : List (LineObj α)) (pabyRec : List UInt8) : Option (List UInt8) := do
  let nPoints := countPoints line
  let pabyRec ← writeBounds rep bBigEndian pabyRec 12 line nPoints
  let pabyRec ← storeAt pabyRec 44 (putWord bBigEndian bBigEndian nPoints)
  storeCoordinates rep bBigEndian pabyRec 48 (← line.head?)

def storeMultiPoint (nShapeType : Int) (line : List (LineObj α)) (pabyRec : List UInt8) :
    Option (List UInt8 × Nat) := do
  let pabyRec ← storeMultiPointPoints rep bBigEndian line pabyRec
  let nRecordSize := 40 + 16 * countPoints line
  let (pabyRec, nRecordSize) ←
    if nShapeType = SHP_MULTIPOINTM then
      appendMeasures rep bBigEndian PointObj.m (line.take 1) pabyRec nRecordSize
    else some (pabyRec, nRecordSize)
  if nShapeType = SHP_MULTIPOINTZ then appendMeasures rep bBigEndian PointObj.z (line.take 1) pabyRec nRecordSize
  else some (pabyRec, nRecordSize)

def storePoint (nShapeType : Int) (line : List (LineObj α)) (pabyRec : List UInt8) : Option (List UInt8 × Nat) := do
  let point ← firstPoint line
  let pabyRec ← storeAt pabyRec 12 (putDouble rep bBigEndian bBigEndian point.x)
  let pabyRec ← storeAt pabyRec 20 (putDouble rep bBigEndian bBigEndian point.y)
  let (pabyRec, nRecordSize) ←
    if nShapeType = SHP_POINTM then appendDoubles rep bBigEndian pabyRec 20 [point.m] else some (pabyRec, 20)
  if nShapeType = SHP_POINTZ then appendDoubles rep bBigEndian pabyRec nRecordSize [point.z]
  else some (pabyRec, nRecordSize)

def storeShape (nShapeType : Int) (shape : ShapeObj α) (pabyRec : List UInt8) : Option (List UInt8 × Nat) :=
  if shape.type = .MS_SHAPE_NULL then some (pabyRec, 12)
  else if nShapeType ∈ polyTypes then storePoly rep bBigEndian nShapeType shape.line pabyRec
  else if nShapeType ∈ multiPointTypes then storeMultiPoint rep bBigEndian nShapeType shape.line pabyRec
  else if nShapeType ∈ pointTypes then storePoint rep bBigEndian nShapeType shape.line pabyRec
  else some (pabyRec, 0)

/-- The record that `msSHPWriteShape` writes as number `nRecords`, and its `nRecordSize`. There is
no outcome where a size leaves the range of `int`, or where a point is missing. -/
def shapeRecord (malloc : Nat → UInt8) (nShapeType nRecords : Int) (shape : ShapeObj α) :
    Option (List UInt8 × Nat) :=
  let nPoints := countPoints shape.line
  let nParts := shape.line.length
  if nPoints * 4 > INT_MAX ∨ nParts * 8 > INT_MAX then none
  else do
    let pabyRec := msSmallMalloc malloc (nPoints * 4 * 8 + nParts * 8 + 128)
    let (pabyRec, nRecordSize) ← storeShape rep bBigEndian nShapeType shape pabyRec
    if nRecordSize + 8 > INT_MAX then none
    else
      let nShapeType := if shape.type = .MS_SHAPE_NULL then 0 else nShapeType
      let pabyRec ← storeAt pabyRec 0 (putWord bBigEndian (!bBigEndian) nRecords)
      let pabyRec ← storeAt pabyRec 4 (putWord bBigEndian (!bBigEndian) (nRecordSize / 2 : Nat))
      let pabyRec ← storeAt pabyRec 8 (putWord bBigEndian bBigEndian nShapeType)
      let record ← readAt pabyRec 0 (nRecordSize + 8)
      some (record, nRecordSize)

end Write
end MapServer

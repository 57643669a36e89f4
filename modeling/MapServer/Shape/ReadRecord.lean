import MapServer.Shape.Record

/-!
# The records that `msSHPReadShape` reads

`none` stands for a read outside the record, or an `int` that overflows. What the record holds is arbitrary.
-/

namespace MapServer
open Lib.ByteFile

section Read
variable {α : Type} (rep : DoubleRep α) (bBigEndian : Bool)

def msInitShape : ShapeObj α :=
  let unset := rep.ofBits 0xbff0000000000000
  { line := [], bounds := { minx := unset, miny := unset, maxx := unset, maxy := unset }, type := .MS_SHAPE_NULL,
    index := -1 }

abbrev ShapeRead (α : Type) := ShapeObj α × Option ErrorObj

def refuseShape (shape : ShapeObj α) (code : MsErrorCode) (message : String) : ShapeRead α :=
  ({ shape with line := [], type := .MS_SHAPE_NULL }, some { code, message, routine := "msSHPReadShape()" })

def readWordAt (pabyRec : List UInt8) (pos : Nat) : Option Int :=
  (readAt pabyRec pos 4).map (getWord bBigEndian bBigEndian)

def readDoubleAt (pabyRec : List UInt8) (pos : Nat) : Option α :=
  (readAt pabyRec pos 8).map (getDouble rep bBigEndian bBigEndian)

def readRectAt (pabyRec : List UInt8) (pos : Nat) : Option (RectObj α) :=
  (readAt pabyRec pos 32).map (getRect rep bBigEndian bBigEndian)

def readIf (present : Prop) [Decidable present] (value : Option α) : Option α :=
  if present then value else some (rep.ofBits 0)

def readPoints (readPoint : Nat → Option (PointObj α)) (k : Nat) : Nat → Option (LineObj α)
  | 0 => some []
  | numpoints + 1 => do
    let point ← readPoint k
    let rest ← readPoints readPoint (k + 1) numpoints
    some (point :: rest)

/-- The Z or M of point `k`, which is 0 in a record too short for the block. -/
def readMeasure (pabyRec : List UInt8) (nOffset nPoints k : Nat) : Option α := do
  let required ← checkedInt (nOffset + 16 + 8 * nPoints)
  readIf rep (pabyRec.length ≥ required) (readDoubleAt rep bBigEndian pabyRec (nOffset + 16 + k * 8))

def readPolyPoint (nShapeType : Int) (pabyRec : List UInt8) (nParts nPoints k : Nat) : Option (PointObj α) := do
  let x ← readDoubleAt rep bBigEndian pabyRec (44 + 4 * nParts + 8 + k * 16)
  let y ← readDoubleAt rep bBigEndian pabyRec (44 + 4 * nParts + 8 + k * 16 + 8)
  let nOffset := 44 + 8 + 4 * nParts + 16 * nPoints
  let z ← readIf rep (nShapeType ∈ [SHP_POLYGONZ, SHP_ARCZ]) (readMeasure rep bBigEndian pabyRec nOffset nPoints k)
  let m ← readIf rep (nShapeType ∈ [SHP_POLYGONM, SHP_ARCM]) (readMeasure rep bBigEndian pabyRec nOffset nPoints k)
  some { x, y, z, m }

/-- The loop over the parts: part `i` ends where the next one starts, the last one at `nPoints`. -/
def readParts (readPoint : Nat → Option (PointObj α)) (hEntity nPoints : Int) (i k : Nat) :
    List Int → Option (Except String (List (LineObj α)))
  | [] => some (.ok [])
  | start :: panParts => do
    let stop := panParts.headD nPoints
    if start < 0 ∨ stop < 0 ∨ stop > nPoints ∨ start ≥ stop then
      some (.error s!"Corrupted .shp file : shape {hEntity}, shape->line[{i}].start={start}, shape->line[{i}].end={stop}")
    else
      let numpoints := (stop - start).toNat
      let line ← readPoints readPoint k numpoints
      let rest ← readParts readPoint hEntity nPoints (i + 1) (k + numpoints) panParts
      some (rest.map (line :: ·))

def corruptedFeature (hEntity nEntitySize : Int) : String :=
  s!"Corrupted feature encountered.  hEntity = {hEntity}, nEntitySize={nEntitySize}"

def readPoly (nShapeType hEntity : Int) (pabyRec : List UInt8) (shape : ShapeObj α) : Option (ShapeRead α) := do
  let nEntitySize := pabyRec.length
  if nEntitySize < 40 + 8 + 4 then
    some (refuseShape shape .MS_SHPERR (corruptedFeature hEntity nEntitySize))
  else
    let bounds ← readRectAt rep bBigEndian pabyRec (8 + 4)
    let shape := { shape with bounds }
    let nPoints ← readWordAt bBigEndian pabyRec (40 + 8)
    let nParts ← readWordAt bBigEndian pabyRec (36 + 8)
    if nPoints < 0 ∨ nParts < 0 ∨ nPoints > 50 * 1000 * 1000 ∨ nParts > 10 * 1000 * 1000 then
      some (refuseShape shape .MS_SHPERR
        s!"Corrupted feature encountered.  hEntity = {hEntity}, nPoints ={nPoints}, nParts = {nParts}")
    else
      let required ← checkedInt (44 + 8 + 4 * nParts + 16 * nPoints)
      if required > nEntitySize then
        some (refuseShape shape .MS_SHPERR
          s!"Corrupted .shp file : shape {hEntity}, nPoints={nPoints}, nParts={nParts}.")
      else
        let starts ← readAt pabyRec (44 + 8) (4 * nParts.toNat)
        let panParts := getWords bBigEndian bBigEndian nParts.toNat starts
        let readPoint := readPolyPoint rep bBigEndian nShapeType pabyRec nParts.toNat nPoints.toNat
        match ← readParts readPoint hEntity nPoints 0 0 panParts with
        | .error message => some (refuseShape shape .MS_SHPERR message)
        | .ok line =>
          let type :=
            if nShapeType ∈ [SHP_POLYGON, SHP_POLYGONZ, SHP_POLYGONM] then .MS_SHAPE_POLYGON else .MS_SHAPE_LINE
          some ({ shape with line, type, index := hEntity }, none)

def readMultiPointPoint (nShapeType : Int) (pabyRec : List UInt8) (nPoints i : Nat) : Option (PointObj α) := do
  let x ← readDoubleAt rep bBigEndian pabyRec (48 + 16 * i)
  let y ← readDoubleAt rep bBigEndian pabyRec (48 + 16 * i + 8)
  let nOffset := 48 + 16 * nPoints
  let z ← readIf rep (nShapeType = SHP_MULTIPOINTZ) (readDoubleAt rep bBigEndian pabyRec (nOffset + 16 + i * 8))
  let m ← readIf rep (nShapeType = SHP_MULTIPOINTM) (readDoubleAt rep bBigEndian pabyRec (nOffset + 16 + i * 8))
  some { x, y, z, m }

def corruptedRecSize (hEntity nRecordSize : Int) : String :=
  s!"Corrupted feature encountered.  recSize of feature {hEntity}={nRecordSize}"

def readMultiPoint (nShapeType hEntity : Int) (pabyRec : List UInt8) (shape : ShapeObj α) :
    Option (ShapeRead α) := do
  let nEntitySize := pabyRec.length
  if nEntitySize < 44 + 4 then
    some (refuseShape shape .MS_SHPERR (corruptedRecSize hEntity (nEntitySize - 8)))
  else
    let bounds ← readRectAt rep bBigEndian pabyRec (8 + 4)
    let shape := { shape with bounds }
    let nPoints ← readWordAt bBigEndian pabyRec 44
    if nPoints < 0 ∨ nPoints > 50 * 1000 * 1000 then
      some (refuseShape shape .MS_SHPERR s!"Corrupted .shp file : shape {hEntity}, nPoints={nPoints}.")
    else
      let nRequiredSize ← checkedInt (48 + nPoints * 16)
      let measures := if nShapeType ∈ [SHP_MULTIPOINTZ, SHP_MULTIPOINTM] then 16 + nPoints * 8 else 0
      let nRequiredSize ← checkedInt (nRequiredSize + measures)
      if nRequiredSize > nEntitySize then
        some (refuseShape shape .MS_SHPERR
          s!"Corrupted .shp file : shape {hEntity} : nPoints = {nPoints}, nEntitySize = {nEntitySize}")
      else
        let readPoint := readMultiPointPoint rep bBigEndian nShapeType pabyRec nPoints.toNat
        let line ← readPoints readPoint 0 nPoints.toNat
        some ({ shape with line := [line], type := .MS_SHAPE_POINT, index := hEntity }, none)

def readPointMeasure (pabyRec : List UInt8) : Option α :=
  let nOffset := 20 + 8
  readIf rep (pabyRec.length ≥ nOffset + 8) (readDoubleAt rep bBigEndian pabyRec nOffset)

def readPoint (nShapeType hEntity : Int) (pabyRec : List UInt8) (shape : ShapeObj α) : Option (ShapeRead α) := do
  let nEntitySize := pabyRec.length
  if nEntitySize < 20 + 8 then
    some (refuseShape shape .MS_SHPERR (corruptedRecSize hEntity (nEntitySize - 8)))
  else
    let x ← readDoubleAt rep bBigEndian pabyRec 12
    let y ← readDoubleAt rep bBigEndian pabyRec 20
    let z ← readIf rep (nShapeType = SHP_POINTZ) (readPointMeasure rep bBigEndian pabyRec)
    let m ← readIf rep (nShapeType = SHP_POINTM) (readPointMeasure rep bBigEndian pabyRec)
    let bounds := { minx := x, miny := y, maxx := x, maxy := y }
    some ({ shape with line := [[{ x, y, z, m }]], bounds, type := .MS_SHAPE_POINT, index := hEntity }, none)

def readRecord (nShapeType hEntity : Int) (pabyRec : List UInt8) (shape : ShapeObj α) : Option (ShapeRead α) :=
  if nShapeType ∈ polyTypes then readPoly rep bBigEndian nShapeType hEntity pabyRec shape
  else if nShapeType ∈ multiPointTypes then readMultiPoint rep bBigEndian nShapeType hEntity pabyRec shape
  else if nShapeType ∈ pointTypes then readPoint rep bBigEndian nShapeType hEntity pabyRec shape
  else some ({ shape with index := hEntity }, none)

/-- `msSHPReadShape` for an entity whose size and offset in the index are `nRecordSize` and `offset`. The buffer
is allocated. -/
def readShapeAt (nShapeType hEntity nRecordSize offset : Int) (fpSHP : List UInt8) : Option (ShapeRead α) :=
  let shape := msInitShape rep
  if nRecordSize < 4 ∨ nRecordSize > INT_MAX - 8 then
    some (refuseShape shape .MS_SHPERR (corruptedFeature hEntity nRecordSize))
  else
    let nEntitySize := nRecordSize + 8
    if nEntitySize = 12 then some (shape, none)
    else if offset ≤ 0 then some (refuseShape shape .MS_IOERR "failed to seek offset")
    else
      match readAt fpSHP offset.toNat nEntitySize.toNat with
      | none =>
        some ({ shape with type := .MS_SHAPE_NULL },
          some { code := .MS_IOERR, message := "failed to fread record", routine := "msSHPReadPoint()" })
      | some pabyRec => readRecord rep bBigEndian nShapeType hEntity pabyRec shape

end Read
end MapServer

import MapServer.Shape.ReadRecord

/-!
The record is read from a buffer that other records may have made longer, and the points are stored in arrays. `none` stands
for a read past the end of the record, a store past the end of an array, or an `int` that overflows.
-/

namespace MapServer
open Lib.ByteFile

/-- A `lineObj` with the points that are allocated for it. -/
structure RawLine (α : Type) where
  numpoints : Int
  point : List (PointObj α)

/-- A `shapeObj` while it is read. `line` may be `NULL`. -/
structure RawShape (α : Type) where
  line : Option (List (RawLine α))
  numlines : Int
  bounds : RectObj α
  type : MS_SHAPE_TYPE
  index : Int

/-- The buffers of an `SHPInfo`. -/
structure RecordBuffers where
  /-- `nBufSize` bytes. -/
  pabyRec : List UInt8
  nBufSize : Int
  panParts : Option (List Int)
  nPartMax : Int

def newBuffers : RecordBuffers where
  pabyRec := []
  nBufSize := 0
  panParts := none
  nPartMax := 0

/-- Which of the allocations that a read makes succeed, and whether the file can be positioned. -/
structure Outcomes where
  record : Bool
  parts : Bool
  lines : Bool
  points : Nat → Bool
  seek : Bool

def sizeofPointObj : Int := 32

def sizeofLineObj : Int := 16

structure ReadExit (α : Type) where
  shape : RawShape α
  error : Option ErrorObj
  finished : Bool

section Exits
variable {α : Type}

def RawShape.null (shape : RawShape α) : RawShape α := { shape with type := .MS_SHAPE_NULL }

def RawShape.freeLines (shape : RawShape α) : RawShape α := { shape with line := none, numlines := 0 }

def returnEarly (shape : RawShape α) (error : Option ErrorObj) : ReadExit α := ⟨shape, error, false⟩

def readError (code : MsErrorCode) (message : String) : Option ErrorObj :=
  some { code, message, routine := "msSHPReadShape()" }

def allocError (line : Nat) (size : Int) : Option ErrorObj :=
  some {
    code := .MS_MEMERR
    message := s!"mapshape.c: {line}: Out of memory allocating {size} bytes.\n"
    routine := "msSHPReadShape" }

def outOfMemory (nBytes hEntity : Int) : String :=
  s!"Out of memory. Cannot allocate {nBytes} bytes. Probably broken shapefile at feature {hEntity}"

end Exits

section Read
variable {α : Type} (rep : DoubleRep α) (bBigEndian : Bool) (malloc : Nat → UInt8) (uninit : PointObj α)

def msSHPReadAllocateBuffer (outcomes : Outcomes) (psSHP : RecordBuffers) (hEntity nRecordSize : Int)
    (pszCallingFunction : String) : Option (Except ErrorObj RecordBuffers) :=
  let memoryError (nEntitySize : Int) : ErrorObj :=
    { code := .MS_MEMERR, message := outOfMemory nEntitySize hEntity, routine := pszCallingFunction }
  if nRecordSize ≤ 0 ∨ nRecordSize > INT_MAX - 8 then some (.error (memoryError nRecordSize))
  else do
    let nEntitySize ← checkedInt (nRecordSize + 8)
    if nEntitySize > psSHP.nBufSize then
      if outcomes.record then
        some (.ok { psSHP with
          pabyRec := SfRealloc malloc psSHP.pabyRec nEntitySize.toNat, nBufSize := nEntitySize })
      else some (.error (memoryError nEntitySize))
    else some (.ok psSHP)

def growParts (outcomes : Outcomes) (psSHP : RecordBuffers) (hEntity nParts : Int) :
    Option (RecordBuffers × Option String) := do
  let nBytes ← checkedInt (nParts * 4)
  let fresh (count : Int) : List Int := (List.range count.toNat).map fun i => (malloc i).toNat
  let grown : RecordBuffers × Option String :=
    if psSHP.nPartMax < nParts then
      if outcomes.parts then ({ psSHP with panParts := some (fresh nParts), nPartMax := nParts }, none)
      else
        ({ psSHP with panParts := if psSHP.nPartMax = 0 then none else some (fresh psSHP.nPartMax) },
          some (outOfMemory nBytes hEntity))
    else (psSHP, none)
  match grown with
  | (psSHP, some message) => some (psSHP, some message)
  | (psSHP, none) => some (psSHP, if psSHP.panParts.isNone then some "Out of memory" else none)

/-- The copy of the part starts to `panParts`. -/
def copyParts (record : List UInt8) (panParts : List Int) (nParts : Int) : Option (List Int) := do
  let nBytes ← checkedInt (4 * nParts)
  let starts ← readAt record (44 + 8) nBytes.toNat
  if nParts ≤ panParts.length then
    some (getWords bBigEndian bBigEndian nParts.toNat starts ++ panParts.drop nParts.toNat)
  else none

def setAt {β : Type} (array : List β) (i : Nat) (value : β) : Option (List β) :=
  if i < array.length then some (array.set i value) else none

/-- The loop over the points of a line from `j` on, with the overall point counter `k`. -/
def storePoints (readPoint : Nat → Option (PointObj α)) : (more j k : Nat) → List (PointObj α) →
    Option (List (PointObj α) × Nat)
  | 0, _, k, point => some (point, k)
  | more + 1, j, k, point => do
    let value ← readPoint k
    let point ← setAt point j value
    storePoints readPoint more (j + 1) (k + 1) point

/-- A new line with points `k`, `k + 1`, ... of the record. -/
def fillLine (readPoint : Nat → Option (PointObj α)) (numpoints : Int) (k : Nat) : Option (RawLine α × Nat) := do
  let (point, k) ← storePoints readPoint numpoints.toNat 0 k (List.replicate numpoints.toNat uninit)
  some ({ numpoints, point }, k)

/-- Part `i` ends where the next one starts, the last one at `nPoints`. -/
def partStop (panParts : List Int) (nParts : Nat) (nPoints : Int) (i : Nat) : Option Int :=
  if i + 1 = nParts then some nPoints else entryAt panParts (i + 1 : Nat)

def storeParts (outcomes : Outcomes) (readPoint : Nat → Option (PointObj α)) (hEntity nPoints : Int)
    (panParts : List Int) (nParts : Nat) : (more i k : Nat) → List (RawLine α) →
    Option (Except ErrorObj (List (RawLine α)))
  | 0, _, _, line => some (.ok line)
  | more + 1, i, k, line => do
    let stop ← partStop panParts nParts nPoints i
    let start ← entryAt panParts i
    if start < 0 ∨ stop < 0 ∨ stop > nPoints ∨ start ≥ stop then
      some (.error {
        code := .MS_SHPERR
        message := s!"Corrupted .shp file : shape {hEntity}, shape->line[{i}].start={start}, shape->line[{i}].end={stop}"
        routine := "msSHPReadShape()" })
    else do
      let numpoints ← checkedInt (stop - start)
      let _ ← checkedInt (sizeofPointObj * numpoints)
      if outcomes.points i then do
        let (filled, k) ← fillLine uninit readPoint numpoints k
        let line ← setAt line i filled
        storeParts outcomes readPoint hEntity nPoints panParts nParts more (i + 1) k line
      else some (.error { code := .MS_MEMERR, message := "Out of memory", routine := "msSHPReadShape()" })

def finish (shape : RawShape α) (hEntity : Int) : ReadExit α := ⟨{ shape with index := hEntity }, none, true⟩

def readPolyLines (outcomes : Outcomes) (nShapeType hEntity nEntitySize nPoints nParts : Int) (record : List UInt8)
    (psSHP : RecordBuffers) (panParts : List Int) (shape : RawShape α) : Option (RecordBuffers × ReadExit α) := do
  let required ← checkedInt (44 + 8 + 4 * nParts + 16 * nPoints)
  if required > nEntitySize then
    some (psSHP, returnEarly shape.null (readError .MS_SHPERR
      s!"Corrupted .shp file : shape {hEntity}, nPoints={nPoints}, nParts={nParts}."))
  else do
    let panParts ← copyParts bBigEndian record panParts nParts
    let psSHP := { psSHP with panParts := some panParts }
    let size ← checkedInt (sizeofLineObj * nParts)
    if !outcomes.lines then some (psSHP, returnEarly shape (allocError 1505 size))
    else do
      let line := List.replicate nParts.toNat ⟨0, []⟩
      let shape := { shape with line := some line, numlines := nParts }
      let readPoint := readPolyPoint rep bBigEndian nShapeType record nParts.toNat nPoints.toNat
      let stored ← storeParts uninit outcomes readPoint hEntity nPoints panParts nParts.toNat nParts.toNat 0 0 line
      match stored with
      | .error error => some (psSHP, returnEarly shape.freeLines.null (some error))
      | .ok line =>
        let type :=
          if nShapeType ∈ [SHP_POLYGON, SHP_POLYGONZ, SHP_POLYGONM] then .MS_SHAPE_POLYGON else .MS_SHAPE_LINE
        some (psSHP, finish { shape with line := some line, type } hEntity)

def readPolyShape (outcomes : Outcomes) (nShapeType hEntity nEntitySize : Int) (record : List UInt8)
    (psSHP : RecordBuffers) (shape : RawShape α) : Option (RecordBuffers × ReadExit α) :=
  if nEntitySize < 40 + 8 + 4 then
    some (psSHP, returnEarly shape.null (readError .MS_SHPERR (corruptedFeature hEntity nEntitySize)))
  else do
    let bounds ← readRectAt rep bBigEndian record (8 + 4)
    let shape := { shape with bounds }
    let nPoints ← readWordAt bBigEndian record (40 + 8)
    let nParts ← readWordAt bBigEndian record (36 + 8)
    if nPoints < 0 ∨ nParts < 0 ∨ nPoints > 50 * 1000 * 1000 ∨ nParts > 10 * 1000 * 1000 then
      some (psSHP, returnEarly shape.null (readError .MS_SHPERR
        s!"Corrupted feature encountered.  hEntity = {hEntity}, nPoints ={nPoints}, nParts = {nParts}"))
    else do
      let (psSHP, failed) ← growParts malloc outcomes psSHP hEntity nParts
      match failed, psSHP.panParts with
      | some message, _ => some (psSHP, returnEarly shape.null (readError .MS_MEMERR message))
      | none, none => none
      | none, some panParts =>
        readPolyLines rep bBigEndian uninit outcomes nShapeType hEntity nEntitySize nPoints nParts record psSHP panParts shape

def readMultiPointShape (outcomes : Outcomes) (nShapeType hEntity nRecordSize nEntitySize : Int) (record : List UInt8)
    (shape : RawShape α) : Option (ReadExit α) :=
  if nEntitySize < 44 + 4 then
    some (returnEarly shape.null (readError .MS_SHPERR (corruptedRecSize hEntity nRecordSize)))
  else do
    let bounds ← readRectAt rep bBigEndian record (8 + 4)
    let shape := { shape with bounds }
    let nPoints ← readWordAt bBigEndian record 44
    if !outcomes.lines then some (returnEarly shape.null (readError .MS_MEMERR "Out of memory"))
    else
      let shape := { shape with line := some [⟨0, []⟩] }
      if nPoints < 0 ∨ nPoints > 50 * 1000 * 1000 then
        some (returnEarly shape.freeLines.null
          (readError .MS_SHPERR s!"Corrupted .shp file : shape {hEntity}, nPoints={nPoints}."))
      else do
        let nRequiredSize ← checkedInt (48 + nPoints * 16)
        let measures := if nShapeType ∈ [SHP_MULTIPOINTZ, SHP_MULTIPOINTM] then 16 + nPoints * 8 else 0
        let nRequiredSize ← checkedInt (nRequiredSize + measures)
        if nRequiredSize > nEntitySize then
          some (returnEarly shape.freeLines.null (readError .MS_SHPERR
            s!"Corrupted .shp file : shape {hEntity} : nPoints = {nPoints}, nEntitySize = {nEntitySize}"))
        else do
          let shape := { shape with numlines := 1 }
          let _ ← checkedInt (nPoints * sizeofPointObj)
          if !outcomes.points 0 then
            some (returnEarly shape.freeLines.null (readError .MS_MEMERR "Out of memory"))
          else do
            let readPoint := readMultiPointPoint rep bBigEndian nShapeType record nPoints.toNat
            let (line, _) ← fillLine uninit readPoint nPoints 0
            some (finish { shape with line := some [line], type := .MS_SHAPE_POINT } hEntity)

def readPointShape (outcomes : Outcomes) (nShapeType hEntity nRecordSize nEntitySize : Int) (record : List UInt8)
    (shape : RawShape α) : Option (ReadExit α) :=
  if nEntitySize < 20 + 8 then
    some (returnEarly shape.null (readError .MS_SHPERR (corruptedRecSize hEntity nRecordSize)))
  else if !outcomes.lines then some (returnEarly shape (allocError 1720 sizeofLineObj))
  else do
    let shape := { shape with numlines := 1 }
    let x ← readDoubleAt rep bBigEndian record 12
    let y ← readDoubleAt rep bBigEndian record 20
    let z ← readIf rep (nShapeType = SHP_POINTZ) (readPointMeasure rep bBigEndian record)
    let m ← readIf rep (nShapeType = SHP_POINTM) (readPointMeasure rep bBigEndian record)
    let point ← setAt [uninit] 0 { x, y, z, m }
    let bounds := { minx := x, miny := y, maxx := x, maxy := y }
    some (finish { shape with line := some [⟨1, point⟩], bounds, type := .MS_SHAPE_POINT } hEntity)

def readShapeRecord (outcomes : Outcomes) (nShapeType hEntity nRecordSize nEntitySize : Int) (record : List UInt8)
    (psSHP : RecordBuffers) (shape : RawShape α) : Option (RecordBuffers × ReadExit α) :=
  if nShapeType ∈ polyTypes then
    readPolyShape rep bBigEndian malloc uninit outcomes nShapeType hEntity nEntitySize record psSHP shape
  else if nShapeType ∈ multiPointTypes then
    (readMultiPointShape rep bBigEndian uninit outcomes nShapeType hEntity nRecordSize nEntitySize record shape).map
      (psSHP, ·)
  else if nShapeType ∈ pointTypes then
    (readPointShape rep bBigEndian uninit outcomes nShapeType hEntity nRecordSize nEntitySize record shape).map
      (psSHP, ·)
  else some (psSHP, finish shape hEntity)

def initRawShape : RawShape α where
  line := none
  numlines := 0
  bounds := (msInitShape rep).bounds
  type := (msInitShape rep).type
  index := (msInitShape rep).index

/-- `msSHPReadShape` of an entity whose size and offset in the index are `nRecordSize` and `offset`. -/
def msSHPReadShapeBuffers (outcomes : Outcomes) (nShapeType nRecords : Int) (fpSHP : List UInt8)
    (psSHP : RecordBuffers) (hEntity nRecordSize offset : Int) : Option (RecordBuffers × ReadExit α) :=
  let shape := initRawShape rep
  if hEntity < 0 ∨ hEntity ≥ nRecords then some (psSHP, returnEarly shape none)
  else if nRecordSize < 4 ∨ nRecordSize > INT_MAX - 8 then
    some (psSHP, returnEarly shape.null (readError .MS_SHPERR (corruptedFeature hEntity nRecordSize)))
  else do
    let nEntitySize ← checkedInt (nRecordSize + 8)
    if nEntitySize = 12 then some (psSHP, returnEarly shape.null none)
    else do
      let buffer ← msSHPReadAllocateBuffer malloc outcomes psSHP hEntity nRecordSize "msSHPReadShape()"
      match buffer with
      | .error error => some (psSHP, returnEarly shape.null (some error))
      | .ok psSHP =>
        if offset ≤ 0 ∨ !outcomes.seek then
          some (psSHP, returnEarly shape.null (readError .MS_IOERR "failed to seek offset"))
        else do
          let bytes := (fpSHP.drop offset.toNat).take nEntitySize.toNat
          let pabyRec ← storeAt psSHP.pabyRec 0 bytes
          let psSHP := { psSHP with pabyRec }
          if bytes.length ≠ nEntitySize then
            some (psSHP, returnEarly shape.null
              (some { code := .MS_IOERR, message := "failed to fread record", routine := "msSHPReadPoint()" }))
          else
            readShapeRecord rep bBigEndian malloc uninit outcomes nShapeType hEntity nRecordSize nEntitySize
              (pabyRec.take nEntitySize.toNat) psSHP shape

end Read
end MapServer

import MapServer.Bits
import MapServer.Shape.ReadRecord

namespace MapServer
open Lib.ByteFile

def SHX_BUFFER_PAGE : Nat := 1024

/-- `SHPInfo`. The files are their contents, `.shx` with the position in it. -/
structure SHPHandle (α : Type) where
  fpSHP : List UInt8
  fpSHX : List UInt8
  posSHX : Nat
  nShapeType : Int
  nFileSize : Int
  nRecords : Nat
  nMaxRecords : Nat
  panRecOffset : Nat → Int
  panRecSize : Nat → Int
  panRecLoaded : BitArray
  panRecAllLoaded : Bool
  /-- `adBoundsMin` and `adBoundsMax`, of four coordinates each. -/
  adBoundsMin : PointObj α
  adBoundsMax : PointObj α
  bUpdated : Bool

section Open
variable {α : Type} (rep : DoubleRep α) (bBigEndian : Bool)

def shpError (message : String) : Option ErrorObj := some { code := .MS_SHPERR, message, routine := "msSHPOpen()" }

/-- The size in the header, or the size of the file when the header has none that is supported. -/
def shpFileSize (fpSHP header : List UInt8) : Int :=
  let nFileSize := getWord bBigEndian (!bBigEndian) ((header.drop 24).take 4)
  if nFileSize < 0 ∨ nFileSize > INT_MAX / 2 then
    if fpSHP.length > INT_MAX then 0 else fpSHP.length
  else nFileSize * 2

/-- `malloc` is what the arrays of the index hold at first. -/
def msSHPOpenVirtualFile (malloc : Nat → Int × Int) (fpSHP fpSHX : List UInt8) :
    Except (Option ErrorObj) (SHPHandle α) :=
  match readAt fpSHP 0 100, readAt fpSHX 0 100 with
  | none, _ => .error none
  | some _, none => .error (shpError "Corrupted .shx file")
  | some shp, some shx =>
    if shx.take 4 ≠ [0, 0, 0x27, 0x0a] ∧ shx.take 4 ≠ [0, 0, 0x27, 0x0d] then
      .error (shpError "Corrupted .shx file")
    else
      let nSHXHalfFileSize := getWord bBigEndian (!bBigEndian) ((shx.drop 24).take 4)
      let nRecords := if nSHXHalfFileSize ≥ 50 then (nSHXHalfFileSize - 50) / 4 else -1
      if nRecords < 0 ∨ nRecords > 256000000 then
        .error (shpError s!"Corrupted .shx file : nRecords = {nRecords}.")
      else
        let bound (pos : Nat) : α := getDouble rep bBigEndian bBigEndian ((shx.drop pos).take 8)
        .ok {
          fpSHP, fpSHX
          posSHX := 100
          nShapeType := (shx.getD 32 0).toNat
          nFileSize := shpFileSize bBigEndian fpSHP shp
          nRecords := nRecords.toNat
          nMaxRecords := nRecords.toNat
          panRecOffset := fun i => (malloc i).1
          panRecSize := fun i => (malloc i).2
          panRecLoaded := msAllocBitArray (1 + nRecords.toNat / SHX_BUFFER_PAGE)
          panRecAllLoaded := false
          adBoundsMin := { x := bound 36, y := bound 44, z := bound 68, m := bound 84 }
          adBoundsMax := { x := bound 52, y := bound 60, z := bound 76, m := bound 92 }
          bUpdated := false }

end Open

section Cache
variable {α : Type} (bBigEndian : Bool)

def indexBytes (word : Int) : Int := if word > 0 ∧ word < INT_MAX / 2 then word * 2 else 0

def SHPHandle.setEntry (psSHP : SHPHandle α) (i : Nat) (offset size : Int) : SHPHandle α :=
  { psSHP with
    panRecOffset := Function.update psSHP.panRecOffset i offset
    panRecSize := Function.update psSHP.panRecSize i size }

/-- The loop that copies `count` entries of the buffer into the arrays, from entry `first` on. -/
def cacheEntries (psSHP : SHPHandle α) (first : Nat) : Nat → List UInt8 → SHPHandle α
  | 0, _ => psSHP
  | count + 1, buffer =>
    let offset := getWord bBigEndian (!bBigEndian) (buffer.take 4)
    let size := getWord bBigEndian (!bBigEndian) ((buffer.drop 4).take 4)
    cacheEntries (psSHP.setEntry first (indexBytes offset) (indexBytes size)) (first + 1) count (buffer.drop 8)

/-- The two `memset` calls of a page that could not be read. -/
def clearEntries (psSHP : SHPHandle α) (first count : Nat) : SHPHandle α :=
  let clear (entries : Nat → Int) (i : Nat) := if first ≤ i ∧ i < first + count then 0 else entries i
  { psSHP with panRecOffset := clear psSHP.panRecOffset, panRecSize := clear psSHP.panRecSize }

def msSHXLoadPage (psSHP : SHPHandle α) (shxBufferPage : Nat) : SHPHandle α :=
  let nShapesToCache :=
    if shxBufferPage < psSHP.nRecords / SHX_BUFFER_PAGE then SHX_BUFFER_PAGE
    else psSHP.nRecords - shxBufferPage * SHX_BUFFER_PAGE
  let pos := 100 + shxBufferPage * SHX_BUFFER_PAGE * 8
  let panRecLoaded := msSetBit psSHP.panRecLoaded shxBufferPage true
  match readAt psSHP.fpSHX pos (8 * nShapesToCache) with
  | none =>
    { clearEntries psSHP (shxBufferPage * SHX_BUFFER_PAGE) nShapesToCache with
      posSHX := max pos psSHP.fpSHX.length, panRecLoaded }
  | some buffer =>
    { cacheEntries bBigEndian psSHP (shxBufferPage * SHX_BUFFER_PAGE) nShapesToCache buffer with
      posSHX := pos + 8 * nShapesToCache, panRecLoaded }

/-- Reads on from wherever the `.shx` file is. -/
def msSHXLoadAll (psSHP : SHPHandle α) : SHPHandle α :=
  match readAt psSHP.fpSHX psSHP.posSHX (8 * psSHP.nRecords) with
  | none => { psSHP with posSHX := max psSHP.posSHX psSHP.fpSHX.length }
  | some pabyBuf =>
    { cacheEntries bBigEndian psSHP 0 psSHP.nRecords pabyBuf with
      posSHX := psSHP.posSHX + 8 * psSHP.nRecords, panRecAllLoaded := true }

def fillIndex (psSHP : SHPHandle α) : SHPHandle α :=
  if psSHP.panRecAllLoaded then psSHP else msSHXLoadAll bBigEndian psSHP

/-- What `msSHXReadOffset` and `msSHXReadSize` do before they look an entry up. -/
def needPage (psSHP : SHPHandle α) (hEntity : Int) : SHPHandle α :=
  let shxBufferPage := hEntity.toNat / SHX_BUFFER_PAGE
  if hEntity < 0 ∨ hEntity ≥ psSHP.nRecords then psSHP
  else if psSHP.panRecAllLoaded || msGetBit psSHP.panRecLoaded shxBufferPage then psSHP
  else msSHXLoadPage bBigEndian psSHP shxBufferPage

def msSHXReadOffset (psSHP : SHPHandle α) (hEntity : Int) : SHPHandle α × Int :=
  let loaded := needPage bBigEndian psSHP hEntity
  (loaded, if hEntity < 0 ∨ hEntity ≥ psSHP.nRecords then 0 else loaded.panRecOffset hEntity.toNat)

def msSHXReadSize (psSHP : SHPHandle α) (hEntity : Int) : SHPHandle α × Int :=
  let loaded := needPage bBigEndian psSHP hEntity
  (loaded, if hEntity < 0 ∨ hEntity ≥ psSHP.nRecords then 0 else loaded.panRecSize hEntity.toNat)

end Cache

section Read
variable {α : Type} (rep : DoubleRep α) (bBigEndian : Bool)

def msSHPReadShape (psSHP : SHPHandle α) (hEntity : Int) : SHPHandle α × Option (ShapeRead α) :=
  if hEntity < 0 ∨ hEntity ≥ psSHP.nRecords then (psSHP, some (msInitShape rep, none))
  else
    let (psSHP, nRecordSize) := msSHXReadSize bBigEndian psSHP hEntity
    let (psSHP, offset) := msSHXReadOffset bBigEndian psSHP hEntity
    (psSHP, readShapeAt rep bBigEndian psSHP.nShapeType hEntity nRecordSize offset psSHP.fpSHP)

def msIsNan (x : α) : Bool :=
  (rep.bits x).extractLsb' 52 11 == BitVec.allOnes 11 && (rep.bits x).extractLsb' 0 52 != 0

/-- The bounds and whether the call succeeded. `none` is a rectangle that is left as it was. -/
def msSHPReadBounds (psSHP : SHPHandle α) (hEntity : Int) : SHPHandle α × Option (RectObj α) × Bool :=
  let zero := rep.ofBits 0
  let empty : RectObj α := { minx := zero, miny := zero, maxx := zero, maxy := zero }
  if psSHP.nRecords ≤ 0 ∨ hEntity < -1 ∨ hEntity ≥ psSHP.nRecords then (psSHP, some empty, false)
  else if hEntity = -1 then
    let low := psSHP.adBoundsMin
    let high := psSHP.adBoundsMax
    (psSHP, some { minx := low.x, miny := low.y, maxx := high.x, maxy := high.y }, true)
  else
    let (psSHP, size) := msSHXReadSize bBigEndian psSHP hEntity
    if size ≤ 4 then (psSHP, some empty, false)
    else
      let (psSHP, offset) := msSHXReadOffset bBigEndian psSHP hEntity
      if offset ≤ 0 ∨ offset ≥ INT_MAX - 12 then (psSHP, none, false)
      else if psSHP.nShapeType ∉ pointTypes then
        match readRectAt rep bBigEndian psSHP.fpSHP (offset + 12).toNat with
        | none => (psSHP, none, false)
        | some bounds => if msIsNan rep bounds.minx then (psSHP, some empty, false) else (psSHP, some bounds, true)
      else
        match readAt psSHP.fpSHP (offset + 12).toNat 16 with
        | none => (psSHP, none, false)
        | some coordinates =>
          let minx := getDouble rep bBigEndian bBigEndian (coordinates.take 8)
          let miny := getDouble rep bBigEndian bBigEndian (coordinates.drop 8)
          (psSHP, some { minx, miny, maxx := minx, maxy := miny }, true)

end Read

section Write
variable {α : Type} [LT α] [DecidableLT α] (rep : DoubleRep α) (bBigEndian : Bool)

def minPoint (a b : PointObj α) : PointObj α where
  x := MS_MIN a.x b.x
  y := MS_MIN a.y b.y
  z := MS_MIN a.z b.z
  m := MS_MIN a.m b.m

def maxPoint (a b : PointObj α) : PointObj α where
  x := MS_MAX a.x b.x
  y := MS_MAX a.y b.y
  z := MS_MAX a.z b.z
  m := MS_MAX a.m b.m

def expandBounds (psSHP : SHPHandle α) (line : List (LineObj α)) : Option (SHPHandle α) := do
  let psSHP ←
    if psSHP.nRecords = 1 then
      (firstPoint line).map fun first => { psSHP with adBoundsMin := first, adBoundsMax := first }
    else some psSHP
  some { psSHP with
    adBoundsMin := line.flatten.foldl minPoint psSHP.adBoundsMin
    adBoundsMax := line.flatten.foldl maxPoint psSHP.adBoundsMax }

/-- The handle afterwards and the number of the new record. The seek to `nFileSize`, which is not negative, does
not fail. -/
def msSHPWriteShape (malloc : Nat → UInt8) (psSHP : SHPHandle α) (shape : ShapeObj α) :
    Option (SHPHandle α × Int) :=
  if psSHP.nFileSize = 0 then some (psSHP, -1)
  else do
    let psSHP := fillIndex bBigEndian { psSHP with bUpdated := true }
    let nRecords : Nat := psSHP.nRecords + 1
    let nMaxRecords :=
      if nRecords > psSHP.nMaxRecords then psSHP.nMaxRecords * 13 / 10 + 100 else psSHP.nMaxRecords
    let nRecordOffset := psSHP.nFileSize
    let (record, nRecordSize) ← shapeRecord rep bBigEndian malloc psSHP.nShapeType nRecords shape
    let nFileSize ← checkedInt (psSHP.nFileSize + (nRecordSize + 8))
    let psSHP := psSHP.setEntry (nRecords - 1) nRecordOffset nRecordSize
    let psSHP ← expandBounds { psSHP with
      fpSHP := writeAt psSHP.fpSHP nRecordOffset.toNat record, nRecords, nMaxRecords, nFileSize } shape.line
    some (psSHP, (nRecords : Int) - 1)

def shapeFileHeader (nHalfFileSize nShapeType : Int) (low high : PointObj α) : List UInt8 :=
  let double := putDouble rep bBigEndian bBigEndian
  [0, 0, 0x27, 0x0a] ++ List.replicate 20 0 ++ putWord bBigEndian (!bBigEndian) nHalfFileSize ++
    putWord bBigEndian bBigEndian 1000 ++ putWord bBigEndian bBigEndian nShapeType ++
    double low.x ++ double low.y ++ double high.x ++ double high.y ++
    double low.z ++ double high.z ++ double low.m ++ double high.m

def putEntry (offset size : Int) : List UInt8 :=
  putWord bBigEndian (!bBigEndian) offset ++ putWord bBigEndian (!bBigEndian) size

/-- The contents of both files after `writeHeader`. -/
def writeHeader (psSHP : SHPHandle α) : List UInt8 × List UInt8 :=
  let header (nHalfFileSize : Int) :=
    shapeFileHeader rep bBigEndian nHalfFileSize psSHP.nShapeType psSHP.adBoundsMin psSHP.adBoundsMax
  let panSHX := (List.range psSHP.nRecords).flatMap fun i =>
    putEntry bBigEndian ((psSHP.panRecOffset i).tdiv 2) ((psSHP.panRecSize i).tdiv 2)
  (writeAt psSHP.fpSHP 0 (header (psSHP.nFileSize.tdiv 2)),
    writeAt (writeAt psSHP.fpSHX 0 (header ((psSHP.nRecords * 8 + 100 : Nat) / 2))) 100 panSHX)

def msSHPClose (psSHP : SHPHandle α) : List UInt8 × List UInt8 :=
  if psSHP.bUpdated then writeHeader rep bBigEndian psSHP else (psSHP.fpSHP, psSHP.fpSHX)

end Write
end MapServer

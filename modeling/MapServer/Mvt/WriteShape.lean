import Mathlib.Data.Int.Bitwise
import MapServer.Shape.Record
import MapServer.Text

namespace MapServer

/-- The layer types that `msMVTWriteTile` lets through. -/
inductive MvtLayerType where
  | MS_LAYER_POINT
  | MS_LAYER_LINE
  | MS_LAYER_POLYGON
  deriving DecidableEq

inductive GeomType where
  | POINT
  | LINESTRING
  | POLYGON
  deriving DecidableEq

/-- A `VectorTile__Tile__Value`, by the field that is set. -/
inductive MvtValue (α : Type) where
  | int_value (value : Int)
  | sint_value (value : Int)
  | float_value (value : α)
  | bool_value (value : Bool)
  | string_value (value : CString)
  deriving DecidableEq

structure MvtFeature where
  id : Int
  tags : List Nat
  type : GeomType
  n_geometry : Nat
  geometry : List Nat
  deriving DecidableEq

/-- The parts of a `VectorTile__Tile__Layer` that the features are added to. -/
structure MvtLayer (α : Type) where
  values : List (MvtValue α)
  features : List MvtFeature
  deriving DecidableEq

structure GmlItemObj where
  type : Option CString
  visible : Bool

/-- The texts that have a value already, each with the index of its value. -/
abbrev ValueLookupTable := List (CString × Nat)

def MOVETO : Nat := 1
def LINETO : Nat := 2
def CLOSEPATH : Nat := 7

def COMMAND (id count : Nat) : Nat := ((id &&& 0x7) ||| (count <<< 3)) % 4294967296

def PARAMETER (n : Int) : Nat := uint32 ((n <<< (1 : Nat)).xor (n >>> (31 : Nat)))

section Geometry
variable {α : Type} (MS_NINT : α → Int)

def partGeometry (layerType : MvtLayerType) (line : LineObj α) : Option Int :=
  match layerType with
  | .MS_LAYER_POINT => checkedInt (line.length * 2)
  | .MS_LAYER_LINE =>
    if line.length ≥ 2 then checkedInt (line.length * 2) >>= fun params => checkedInt (2 + params) else some 0
  | .MS_LAYER_POLYGON =>
    if line.length ≥ 4 then checkedInt ((line.length - 1) * 2) >>= fun params => checkedInt (3 + params) else some 0

def countGeometry (layerType : MvtLayerType) (lines : List (LineObj α)) : Option Nat := do
  let parts ← lines.mapM (partGeometry layerType)
  let n_geometry := parts.sum.toNat
  if layerType = .MS_LAYER_POINT ∧ n_geometry ≠ 0 then some (n_geometry + 1) else some n_geometry

structure GeometryOut where
  geometry : List Nat
  lastx : Int
  lasty : Int

def putCommand (out : GeometryOut) (id count : Nat) : GeometryOut :=
  { out with geometry := out.geometry ++ [COMMAND id count] }

def putPoint (out : GeometryOut) (point : PointObj α) : GeometryOut where
  geometry := out.geometry ++
    [PARAMETER (MS_NINT point.x - out.lastx), PARAMETER (MS_NINT point.y - out.lasty)]
  lastx := int32 (MS_NINT point.x)
  lasty := int32 (MS_NINT point.y)

/-- The points of a part that are written; none when the part is malformed. -/
def keptPoints (layerType : MvtLayerType) (line : LineObj α) : LineObj α :=
  match layerType with
  | .MS_LAYER_POINT => line
  | .MS_LAYER_LINE => if line.length ≥ 2 then line else []
  | .MS_LAYER_POLYGON => if line.length ≥ 4 then line.take (line.length - 1) else []

/-- One step of the loop over the points of a line or a ring of `numpoints` points. -/
def putVertex (numpoints : Nat) (out : GeometryOut) (vertex : PointObj α × Nat) : GeometryOut :=
  let out :=
    if vertex.2 = 0 then putCommand out MOVETO 1
    else if vertex.2 = 1 then putCommand out LINETO (numpoints - 1)
    else out
  putPoint MS_NINT out vertex.1

def putPart (layerType : MvtLayerType) (out : GeometryOut) (line : LineObj α) : GeometryOut :=
  let points := keptPoints layerType line
  if points = [] then out -- skip malformed parts
  else
    let out := points.zipIdx.foldl (putVertex MS_NINT points.length) out
    if layerType = .MS_LAYER_POLYGON then putCommand out CLOSEPATH 1 else out

def outputGeometry (layerType : MvtLayerType) (n_geometry : Nat) (lines : List (LineObj α)) : List Nat :=
  let start : GeometryOut := ⟨[], 0, 0⟩
  if layerType = .MS_LAYER_POINT then
    (lines.foldl (List.foldl (putPoint MS_NINT)) (putCommand start MOVETO ((n_geometry - 1) / 2))).geometry
  else (lines.foldl (putPart MS_NINT layerType) start).geometry

end Geometry

structure TextToNumber (α : Type) where
  atoi : CString → Int
  atol : CString → Int
  atof : CString → α

section WriteShape
variable {α : Type} (numbers : TextToNumber α) (MS_NINT : α → Int)
  (mvtTransformShape mvtClipShape : ShapeObj α → Option (ShapeObj α))

def mvtValue (item : GmlItemObj) (text : CString) : MvtValue α :=
  let isType name := item.type.any (sameIgnoringCase · (ascii name))
  if isType "Integer" then .int_value (numbers.atoi text)
  else if isType "Long" then .sint_value (numbers.atol text)
  else if isType "Real" then .float_value (numbers.atof text)
  else if isType "Boolean" then
    .bool_value (!(sameIgnoringCase text (ascii "0") || sameIgnoringCase text (ascii "false")))
  else .string_value text

/-- The values of the layer, their lookup table and the tags of the feature, as the loop over the items makes them. -/
structure ValuesOut (α : Type) where
  values : List (MvtValue α)
  cache : ValueLookupTable
  tags : List Nat

def putValue (out : ValuesOut α) (entry : GmlItemObj × CString) : ValuesOut α :=
  if !entry.1.visible then out
  else
    let iout := out.tags.length / 2
    match out.cache.lookup entry.2 with
    | some index => { out with tags := out.tags ++ [iout, index] }
    | none =>
      { values := out.values ++ [mvtValue numbers entry.1 entry.2]
        cache := (entry.2, out.values.length) :: out.cache
        tags := out.tags ++ [iout, out.values.length] }

def geomType : MvtLayerType → GeomType
  | .MS_LAYER_POLYGON => .POLYGON
  | .MS_LAYER_LINE => .LINESTRING
  | .MS_LAYER_POINT => .POINT

/-- `values` are the attributes of the shape; nothing is returned when an `int` overflows. -/
def mvtWriteShape (layerType : MvtLayerType) (shape : ShapeObj α) (values : List CString) (items : List GmlItemObj)
    (mvt_layer : MvtLayer α) (cache : ValueLookupTable) : Option (MvtLayer α × ValueLookupTable) :=
  match mvtTransformShape shape with
  | none => some (mvt_layer, cache) -- degenerate shape
  | some shape =>
    match mvtClipShape shape with
    | none => some (mvt_layer, cache) -- no features left after clipping
    | some shape => do
      let n_geometry ← countGeometry layerType shape.line
      if n_geometry = 0 then return (mvt_layer, cache)
      let out := (items.zip values).foldl (putValue numbers) ⟨mvt_layer.values, cache, []⟩
      let geometry := outputGeometry MS_NINT layerType n_geometry shape.line
      let _ ← checkedInt geometry.length -- idx, an int, counts the words
      let feature : MvtFeature := ⟨shape.index, out.tags, geomType layerType, n_geometry, geometry⟩
      return (⟨out.values, mvt_layer.features ++ [feature]⟩, out.cache)

end WriteShape

end MapServer

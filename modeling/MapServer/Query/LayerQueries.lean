import MapServer.Primitive.PixelTransform
import MapServer.Spatial.Intersections
import MapServer.Text

/-!
`msQueryByFilter` and `msQueryByRect` of `mapquery.cpp`, for vector layers in the projection of the map, without result
counting. Numbers are exact.
-/

namespace MapServer.LayerQueries

inductive MS_UNITS where
  | MS_INCHES
  | MS_FEET
  | MS_MILES
  | MS_METERS
  | MS_KILOMETERS
  | MS_DD
  | MS_PIXELS
  | MS_PERCENTAGES
  | MS_NAUTICALMILES
  | MS_INHERIT
  deriving DecidableEq

inductive MS_LAYER_TYPE where
  | MS_LAYER_POINT
  | MS_LAYER_LINE
  | MS_LAYER_POLYGON
  | MS_LAYER_ANNOTATION
  | MS_LAYER_QUERY
  | MS_LAYER_CIRCLE
  | MS_LAYER_TILEINDEX
  | MS_LAYER_CHART
  deriving DecidableEq

inductive MS_QUERY_TYPE where
  | MS_QUERY_BY_FILTER
  | MS_QUERY_BY_RECT
  | other
  deriving DecidableEq

inductive MS_QUERY_MODE where
  | MS_QUERY_SINGLE
  | MS_QUERY_MULTIPLE
  deriving DecidableEq

inductive ExpressionType where
  | MS_EXPRESSION
  | MS_REGEX
  | MS_STRING
  | other
  deriving DecidableEq

structure ExpressionObj where
  string : Option CString
  type : ExpressionType
  insensitive : Bool
  deriving DecidableEq

def MS_OFF : Int := 0
def MS_DELETE : Int := 4

structure QueryShape (K : Type) where
  shape : ShapeObj K
  tileindex : Int
  resultindex : Int

def QueryShape.identity {K : Type} (found : QueryShape K) : Int × Int × Int :=
  (found.tileindex, found.shape.index, found.resultindex)

structure ResultObj where
  classindex : Int
  tileindex : Int
  shapeindex : Int
  resultindex : Int
  deriving DecidableEq

/-- `expression` is `msEvalExpression` of the class. -/
structure ClassObj (K : Type) where
  group : Option CString
  template : Option CString
  status : Int
  minscaledenom : K
  maxscaledenom : K
  minfeaturesize : Int
  expression : QueryShape K → Bool

/-- What a layer reads in a rectangle: nothing overlaps it, or the shapes, which may end with a failure. -/
inductive LayerSearch (K : Type) where
  | MS_FAILURE
  | MS_DONE
  | shapes (shapes : List (QueryShape K)) (complete : Bool)

/-- `search` is what the items and the shapes of the layer are with a filter, which is evaluated while they are read. -/
structure LayerObj (K : Type) where
  type : MS_LAYER_TYPE
  template : Option CString
  status : Int
  minscaledenom : K
  maxscaledenom : K
  mingeowidth : K
  maxgeowidth : K
  minfeaturesize : Int
  sizeunits : MS_UNITS
  tolerance : K
  toleranceunits : MS_UNITS
  maxfeatures : Int
  startindex : Int
  paging : Bool
  classgroup : Option CString
  classes : List (ClassObj K)
  filter : ExpressionObj
  filteritem : Option CString
  opens : Bool
  search : ExpressionObj → Option CString → RectObj K → LayerSearch K
  resultcache : Option (List ResultObj)

structure QueryObj (K : Type) where
  type : MS_QUERY_TYPE
  mode : MS_QUERY_MODE
  layer : Int
  rect : RectObj K
  maxfeatures : Int
  startindex : Int
  filter : ExpressionObj
  filteritem : Option CString

structure MapObj (K : Type) where
  layers : List (LayerObj K)
  width : Int
  height : Int
  extent : RectObj K
  scaledenom : K
  units : MS_UNITS
  resolution : K
  defresolution : K
  query : QueryObj K

section Queries
variable {K : Type} [Field K] [LinearOrder K]

def inchesPerUnit : MS_UNITS → K
  | .MS_INCHES => 1
  | .MS_FEET => 12
  | .MS_MILES => 63360
  | .MS_METERS => 39.3701
  | .MS_KILOMETERS => 39370.1
  | .MS_DD => 4374754
  | .MS_NAUTICALMILES => 72913.3858
  | _ => 1

def MS_CELLSIZE (min max : K) (d : Int) : K := (max - min) / ((d - 1 : Int) : K)

def largerCell (rect : RectObj K) (width height : Int) : K :=
  MS_MAX (MS_CELLSIZE rect.minx rect.maxx width) (MS_CELLSIZE rect.miny rect.maxy height)

def msAdjustExtent (rect : RectObj K) (width height : Int) : K × RectObj K :=
  if width = 1 ∨ height = 1 then (0, rect)
  else
    let cellsize := largerCell rect width height
    if cellsize ≤ 0 then (0, rect)
    else
      let ox := MS_MAX ((((width - 1 : Int) : K) - (rect.maxx - rect.minx) / cellsize) / (2 : Int)) 0
      let oy := MS_MAX ((((height - 1 : Int) : K) - (rect.maxy - rect.miny) / cellsize) / (2 : Int)) 0
      (cellsize, ⟨rect.minx - ox * cellsize, rect.miny - oy * cellsize, rect.maxx + ox * cellsize, rect.maxy + oy * cellsize⟩)

def Pix2LayerGeoref (map : MapObj K) (extent : RectObj K) (layer : LayerObj K) (value : Int) : K :=
  let cellsize := largerCell extent map.width map.height
  let resolutionFactor := map.resolution / map.defresolution
  let unitsFactor := if layer.sizeunits ≠ .MS_PIXELS then inchesPerUnit map.units / inchesPerUnit layer.sizeunits else 1
  value * cellsize * resolutionFactor * unitsFactor

def msShapeCheckSize (shape : ShapeObj K) (minfeaturesize : K) : Bool :=
  let dx := shape.bounds.maxx - shape.bounds.minx
  let dy := shape.bounds.maxy - shape.bounds.miny
  !decide (minfeaturesize ^ 2 > dx ^ 2 + dy ^ 2)

def sizeAccepts (minfeaturesize : K) (shape : ShapeObj K) : Bool :=
  if (shape.type = .MS_SHAPE_LINE ∨ shape.type = .MS_SHAPE_POLYGON) ∧ minfeaturesize > 0 then msShapeCheckSize shape minfeaturesize
  else true

def msScaleInBounds (scale minscale maxscale : K) : Bool :=
  if scale > 0 then
    if maxscale ≠ -1 ∧ scale ≥ maxscale then false
    else if minscale ≠ -1 ∧ scale < minscale then false
    else true
  else true

def msAllocateValidClassGroups (lp : LayerObj K) : Option (List Nat) := do
  let classgroup ← lp.classgroup
  let valid := (List.range lp.classes.length).filter fun i =>
    ((lp.classes[i]?.bind (·.group)).map fun group => sameIgnoringCase group classgroup).getD false
  if valid = [] then none else some valid

/-- Whether a class takes a shape, in the loop of `msShapeGetNextClass`. -/
def classTakes (map : MapObj K) (extent : RectObj K) (layer : LayerObj K) (found : QueryShape K) (cls : ClassObj K) : Bool :=
  msScaleInBounds map.scaledenom cls.minscaledenom cls.maxscaledenom &&
    (if cls.minfeaturesize > 0 then sizeAccepts (Pix2LayerGeoref map extent layer cls.minfeaturesize) found.shape else true) &&
    decide (cls.status ≠ MS_DELETE) && cls.expression found

def msShapeGetClass (map : MapObj K) (extent : RectObj K) (layer : LayerObj K) (found : QueryShape K)
    (classgroup : Option (List Nat)) : Option Nat :=
  (classgroup.getD (List.range layer.classes.length)).find? fun iclass =>
    (layer.classes[iclass]?.map (classTakes map extent layer found)).getD false

def shapeClass (map : MapObj K) (extent : RectObj K) (lp : LayerObj K) (found : QueryShape K) : Option Int :=
  let classindex := msShapeGetClass map extent lp found (msAllocateValidClassGroups lp)
  if lp.template.isSome then some ((classindex.map Int.ofNat).getD (-1))
  else do
    let iclass ← classindex
    let cls ← lp.classes[iclass]?
    if cls.status = MS_OFF ∨ cls.template.isNone then none else some iclass

def QueryShape.result (found : QueryShape K) (classindex : Int) : ResultObj :=
  ⟨classindex, found.tileindex, found.shape.index, found.resultindex⟩

def filterTranslateToLogical (filter : ExpressionObj) (filteritem : Option CString) : Option CString :=
  match filter.type, filteritem with
  | .MS_STRING, some item =>
    some (ascii "'[" ++ item ++ ascii "]'" ++ ascii (if filter.insensitive then " =* '" else " = '") ++ filter.string.getD [] ++
      ascii "'")
  | .MS_REGEX, some item =>
    some (ascii "'[" ++ item ++ ascii "]'" ++ ascii (if filter.insensitive then " ~* '" else " ~ '") ++ filter.string.getD [] ++
      ascii "'")
  | .MS_EXPRESSION, _ => filter.string
  | _, _ => none

/-- The string is `none` if one of the filters is a native one. -/
def mergeFilters (filter1 : ExpressionObj) (filteritem1 : Option CString) (filter2 : ExpressionObj) (filteritem2 : Option CString) :
    ExpressionObj where
  string := do
    let tmpstr1 ← filterTranslateToLogical filter1 filteritem1
    let tmpstr2 ← filterTranslateToLogical filter2 filteritem2
    some (tmpstr1 ++ ascii " AND " ++ tmpstr2)
  type := .MS_EXPRESSION
  insensitive := false

def msIsLayerQueryable (lp : LayerObj K) : Bool :=
  let filled (template : Option CString) := template.any (· ≠ [])
  if lp.type = .MS_LAYER_TILEINDEX then false
  else filled lp.template || lp.classes.any fun cls => filled cls.template

def layerShown (map : MapObj K) (extent : RectObj K) (lp : LayerObj K) : Bool :=
  msIsLayerQueryable lp && decide (lp.status ≠ MS_OFF) &&
  !decide (map.scaledenom > 0 ∧ (lp.maxscaledenom > 0 ∧ map.scaledenom > lp.maxscaledenom ∨
    lp.minscaledenom > 0 ∧ map.scaledenom ≤ lp.minscaledenom)) &&
  !decide ((lp.maxscaledenom ≤ 0 ∧ lp.minscaledenom ≤ 0) ∧ (lp.maxgeowidth > 0 ∧ extent.maxx - extent.minx > lp.maxgeowidth ∨
    lp.mingeowidth > 0 ∧ extent.maxx - extent.minx < lp.mingeowidth))

/-- What the loops over the layers change: fields of the map and its query, and variables of the function. -/
structure LoopState (K : Type) where
  extent : RectObj K
  maxfeatures : Int
  startindex : Int
  minfeaturesize : K
  searchshape : List (LineObj K)

inductive LayerOutcome where
  | next
  | stop
  | MS_FAILURE
  deriving DecidableEq

def enterLayer (s : LoopState K) (lp : LayerObj K) : LoopState K × LayerObj K :=
  (if lp.startindex > 1 ∧ s.startindex < 0 then { s with startindex := lp.startindex } else s,
    { lp with maxfeatures := if s.maxfeatures > 0 then s.maxfeatures else lp.maxfeatures, resultcache := none })

def minfeaturesizeOf (map : MapObj K) (extent : RectObj K) (lp : LayerObj K) (minfeaturesize : K) : K :=
  if lp.minfeaturesize > 0 then Pix2LayerGeoref map extent lp lp.minfeaturesize else minfeaturesize

def searchByFilter (query : QueryObj K) (lp : LayerObj K) : LayerSearch K :=
  if !lp.opens then .MS_FAILURE
  else
    let filter := if lp.filter.string.isSome then mergeFilters query.filter query.filteritem lp.filter lp.filteritem else query.filter
    if filter.string = none then .MS_FAILURE else lp.search filter query.filteritem query.rect

def filterShapes (map : MapObj K) (s : LoopState K) (lp : LayerObj K) :
    List (QueryShape K) → Int → List ResultObj → List ResultObj × Int × Bool
  | [], startindex, results => (results, startindex, false)
  | found :: rest, startindex, results =>
    if !sizeAccepts s.minfeaturesize found.shape then filterShapes map s lp rest startindex results
    else match shapeClass map s.extent lp found with
      | none => filterShapes map s lp rest startindex results
      | some classindex =>
        if !lp.paging ∧ startindex > 1 then filterShapes map s lp rest (startindex - 1) results
        else
          let results := results ++ [found.result classindex]
          if map.query.mode = .MS_QUERY_SINGLE then (results, startindex, true)
          else if lp.maxfeatures > 0 ∧ lp.maxfeatures = results.length then (results, startindex, true)
          else filterShapes map s lp rest startindex results

/-- The body of the loop of `msQueryByFilter`. -/
def queryLayerByFilter (map : MapObj K) (s : LoopState K) (lp : LayerObj K) : LayerOutcome × LoopState K × LayerObj K :=
  if s.maxfeatures = 0 then (.stop, s, lp)
  else
    let (s, lp) := enterLayer s lp
    if !layerShown map s.extent lp then (.next, s, lp)
    else match searchByFilter map.query lp with
      | .MS_FAILURE => (.MS_FAILURE, s, lp)
      | .MS_DONE => (.next, s, lp)
      | .shapes shapes complete =>
        let s := { s with minfeaturesize := minfeaturesizeOf map s.extent lp s.minfeaturesize }
        let (results, startindex, left) := filterShapes map s lp shapes s.startindex []
        (if left || complete then .next else .MS_FAILURE, { s with startindex }, { lp with resultcache := some results })

def searchRect (map : MapObj K) (extent : RectObj K) (lp : LayerObj K) : RectObj K × RectObj K :=
  let searchrect := map.query.rect
  if lp.tolerance > 0 then
    let (tolerance, extent) :=
      if lp.toleranceunits = .MS_PIXELS then
        let (cellsize, extent) := msAdjustExtent extent map.width map.height
        (lp.tolerance * cellsize, extent)
      else (lp.tolerance * (inchesPerUnit lp.toleranceunits / inchesPerUnit map.units), extent)
    (⟨searchrect.minx - tolerance, searchrect.miny - tolerance, searchrect.maxx + tolerance, searchrect.maxy + tolerance⟩, extent)
  else (searchrect, extent)

def searchByRect (lp : LayerObj K) (searchrect : RectObj K) : LayerSearch K :=
  if !lp.opens then .MS_FAILURE else lp.search lp.filter lp.filteritem searchrect

def shapeInSearch (searchrect : RectObj K) (searchshape : List (LineObj K)) (shape : ShapeObj K) : Bool :=
  if msRectContained shape.bounds searchrect then true
  else match shape.type with
    | .MS_SHAPE_POINT => msIntersectMultipointPolygon shape.line searchshape
    | .MS_SHAPE_LINE => msIntersectPolylinePolygon shape.line searchshape
    | .MS_SHAPE_POLYGON => msIntersectPolygons shape.line searchshape
    | .MS_SHAPE_NULL => true

/-- The loop over the shapes, with `map->query.maxfeatures` behind the start index. -/
def rectShapes (map : MapObj K) (s : LoopState K) (lp : LayerObj K) (searchrect : RectObj K) :
    List (QueryShape K) → Int → Int → List ResultObj → List ResultObj × Int × Int × Bool
  | [], startindex, maxfeatures, results => (results, startindex, maxfeatures, false)
  | found :: rest, startindex, maxfeatures, results =>
    if !sizeAccepts s.minfeaturesize found.shape then rectShapes map s lp searchrect rest startindex maxfeatures results
    else match shapeClass map s.extent lp found with
      | none => rectShapes map s lp searchrect rest startindex maxfeatures results
      | some classindex =>
        let inside := shapeInSearch searchrect s.searchshape found.shape
        if inside ∧ !lp.paging ∧ startindex > 1 then rectShapes map s lp searchrect rest (startindex - 1) maxfeatures results
        else
          let results := if inside then results ++ [found.result classindex] else results
          let maxfeatures := if inside then maxfeatures - 1 else maxfeatures
          if lp.maxfeatures > 0 ∧ lp.maxfeatures = results.length then (results, startindex, maxfeatures, true)
          else rectShapes map s lp searchrect rest startindex maxfeatures results

def queryLayerByRect (map : MapObj K) (s : LoopState K) (lp : LayerObj K) : LayerOutcome × LoopState K × LayerObj K :=
  if s.maxfeatures = 0 then (.stop, s, lp)
  else
    let (s, lp) := enterLayer s lp
    if !layerShown map s.extent lp then (.next, s, lp)
    else
      let (searchrect, extent) := searchRect map s.extent lp
      let s := { s with extent, searchshape := msRectToPolygon searchrect s.searchshape }
      match searchByRect lp searchrect with
      | .MS_FAILURE => (.MS_FAILURE, s, lp)
      | .MS_DONE => (.next, s, lp)
      | .shapes shapes complete =>
        let s := { s with minfeaturesize := minfeaturesizeOf map s.extent lp s.minfeaturesize }
        let (results, startindex, maxfeatures, left) := rectShapes map s lp searchrect shapes s.startindex s.maxfeatures []
        (if left || complete then .next else .MS_FAILURE, { s with startindex, maxfeatures }, { lp with resultcache := some results })

def visited (map : MapObj K) : List Nat :=
  if map.query.layer < 0 ∨ map.query.layer ≥ map.layers.length then (List.range map.layers.length).reverse
  else [map.query.layer.toNat]

def queryLayers (body : LoopState K → LayerObj K → LayerOutcome × LoopState K × LayerObj K) :
    List Nat → LoopState K → List (LayerObj K) → Bool × List (LayerObj K)
  | [], _, layers => (true, layers)
  | l :: rest, s, layers =>
    match layers[l]? with
    | none => (true, layers)
    | some lp =>
      let (outcome, s, lp) := body s lp
      match outcome with
      | .next => queryLayers body rest s (layers.set l lp)
      | .stop => (true, layers.set l lp)
      | .MS_FAILURE => (false, layers.set l lp)

def initialState (map : MapObj K) : LoopState K :=
  ⟨map.extent, map.query.maxfeatures, map.query.startindex, -1, []⟩

def msQueryByFilter (map : MapObj K) : Bool × List (LayerObj K) :=
  if map.query.type ≠ .MS_QUERY_BY_FILTER ∨ map.query.filter.string = none then (false, map.layers)
  else queryLayers (queryLayerByFilter map) (visited map) (initialState map) map.layers

def msQueryByRect (map : MapObj K) : Bool × List (LayerObj K) :=
  if map.query.type ≠ .MS_QUERY_BY_RECT then (false, map.layers)
  else queryLayers (queryLayerByRect map) (visited map) (initialState map) map.layers

end Queries

end MapServer.LayerQueries
